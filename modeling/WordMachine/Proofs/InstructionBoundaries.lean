import WordMachine.Proofs.Disassembly
import WordMachine.Proofs.Ensembles
import WordMachine.Proofs.HeapContents
import WordMachine.Proofs.NestedFragments

/-!
Executors stay on instructions. In code that was assembled and has no dynamic calls, a place that an
executor goes to is one of the offsets that reading the code back gives, or its end: by falling
through, by a jump or a call, by a return, as the start of a fork and by a lazy call that was put
off.
-/

namespace WordMachine

/-! ## Offsets of instructions -/

namespace Assembly

/-- Whether an offset is that of an instruction or the end of the code. -/
def IsBoundary (assembly : Assembly) (ip : UInt32) : Prop :=
  ip.toNat = assembly.code.size ∨ ∃ instruction ∈ assembly.decode.1, instruction.offset = ip

structure Stands (assembly : Assembly) (instruction : Decoded) (position : Nat) : Prop where
  offset : instruction.offset = UInt32.ofNat position
  fetched : Exec.fetch? assembly.code position = some (instruction.op, instruction.op.size)
  operands : instruction.operands =
    readOperands assembly.code (position + 1) instruction.op.operands

/-- Whether some instruction of a list starts at a position, or the code ends there. -/
def Follows (assembly : Assembly) (instructions : Array Decoded) (position : Nat) : Prop :=
  position = assembly.code.size ∨
    ∃ instruction ∈ instructions, instruction.offset = UInt32.ofNat position

variable {assembly : Assembly}

theorem mem_decodeFrom {fuel position : Nat} {done : Array Decoded} {instruction : Decoded}
    (member : instruction ∈ done) :
    instruction ∈ (assembly.decodeFrom fuel position done).1 := by
  induction fuel generalizing position done with
  | zero => exact member
  | succ fuel ih =>
    unfold decodeFrom
    split
    · dsimp only
      split
      · exact member
      · split
        · exact ih (Array.mem_push_of_mem _ member)
        · exact member
    · exact member

/-- Reading code without an error gives instructions that stand one behind the other, the first one
where reading begins and the last one before the end. -/
theorem decodeFrom_stands {fuel position : Nat} {done : Array Decoded}
    (clean : (assembly.decodeFrom fuel position done).2 = none)
    (enough : assembly.code.size ≤ position + fuel) (inside : position ≤ assembly.code.size) :
    assembly.Follows (assembly.decodeFrom fuel position done).1 position ∧
      ∀ instruction ∈ (assembly.decodeFrom fuel position done).1, instruction ∈ done ∨
        ∃ place, assembly.Stands instruction place ∧
          assembly.Follows (assembly.decodeFrom fuel position done).1
            (place + instruction.op.size) := by
  induction fuel generalizing position done with
  | zero =>
    refine ⟨Or.inl (by omega), fun instruction member => Or.inl ?_⟩
    exact member
  | succ fuel ih =>
    by_cases more : position < assembly.code.size
    · cases known : Opcode.ofCode? (Bytes.byteAt assembly.code position) with
      | none =>
        simp only [decodeFrom, more, if_true, known] at clean
        cases clean
      | some op =>
        by_cases whole : position + op.size ≤ assembly.code.size
        · have unfolded : assembly.decodeFrom (fuel + 1) position done =
              assembly.decodeFrom fuel (position + op.size) (done.push
                ⟨UInt32.ofNat position, op,
                  readOperands assembly.code (position + 1) op.operands⟩) := by
            rw [decodeFrom, if_pos more]
            simp only [known, whole, if_true]
          have positive := op.size_pos
          rw [unfolded] at clean ⊢
          obtain ⟨follows, each⟩ := ih clean (by omega) whole
          have first := @mem_decodeFrom assembly fuel (position + op.size) _ _
            (@Array.mem_push_self _ done ⟨UInt32.ofNat position, op,
              readOperands assembly.code (position + 1) op.operands⟩)
          refine ⟨Or.inr ⟨_, first, rfl⟩, fun instruction member => ?_⟩
          rcases each instruction member with listed | later
          · rcases Array.mem_push.1 listed with before | rfl
            · exact Or.inl before
            · refine Or.inr ⟨position, ⟨rfl, ?_, rfl⟩, follows⟩
              unfold Exec.fetch?
              rw [if_pos more, known]
              exact if_pos whole
          · exact Or.inr later
        · simp only [decodeFrom, more, if_true, known, whole, if_false] at clean
          cases clean
    · have unfolded : assembly.decodeFrom (fuel + 1) position done = (done, none) := by
        rw [decodeFrom, if_neg more]
      rw [unfolded]
      exact ⟨Or.inl (by omega), fun instruction member => Or.inl member⟩

theorem Follows.boundary {position : Nat} (short : assembly.code.size < 4294967296)
    (follows : assembly.Follows assembly.decode.1 position) :
    assembly.IsBoundary (UInt32.ofNat position) := by
  rcases follows with rfl | ⟨instruction, member, offset⟩
  · exact Or.inl (UInt32.toNat_ofNat_of_lt' short)
  · exact Or.inr ⟨instruction, member, offset⟩

/-- At a boundary an executor fetches the instruction that was read there, and goes on to a
boundary. At the end of the code it fetches nothing. -/
theorem IsBoundary.fetched (clean : assembly.decode.2 = none)
    (short : assembly.code.size < 4294967296) {ip : UInt32} (boundary : assembly.IsBoundary ip) :
    ip.toNat = assembly.code.size ∧ Exec.fetch? assembly.code ip.toNat = none ∨
      ∃ instruction ∈ assembly.decode.1, instruction.offset = ip ∧
        assembly.Stands instruction ip.toNat ∧
        assembly.IsBoundary (ip + UInt32.ofNat instruction.op.size) := by
  rcases boundary with ends | ⟨instruction, member, rfl⟩
  · refine Or.inl ⟨ends, ?_⟩
    unfold Exec.fetch?
    rw [if_neg (by omega)]
  · have stands := (decodeFrom_stands clean (Nat.le_add_left _ _) (Nat.zero_le _)).2 instruction
      member
    rcases stands with nothing | ⟨place, stands, follows⟩
    · exact absurd nothing (Array.not_mem_empty _)
    · obtain ⟨_, inside⟩ := Exec.fetch?_eq_some stands.fetched
      have positive := instruction.op.size_pos
      have same : instruction.offset.toNat = place := by
        rw [stands.offset]
        exact UInt32.toNat_ofNat_of_lt' (by omega : place < 4294967296)
      refine Or.inr ⟨instruction, member, rfl, ?_, ?_⟩
      · rw [same]
        exact stands
      · have next := follows.boundary short
        rw [UInt32.ofNat_add, ← stands.offset] at next
        exact next

end Assembly

/-! ## Targets of instructions -/

theorem toUInt32_injective {left right : UInt32} (same : left.toUInt64 = right.toUInt64) :
    left = right := by
  have words := congrArg UInt64.toUInt32 same
  rw [UInt32.toUInt32_toUInt64, UInt32.toUInt32_toUInt64] at words
  exact words

theorem toUInt8_injective {left right : UInt8} (same : left.toUInt64 = right.toUInt64) :
    left = right := by
  have bytes := congrArg UInt64.toUInt8 same
  rw [UInt8.toUInt8_toUInt64, UInt8.toUInt8_toUInt64] at bytes
  exact bytes

namespace Fragment

open Lowering (Code)

variable {assembly : Assembly} {start : Fragment} {code : Code} {address : Label → UInt32}
  {number : Bytes → UInt32}

theorem Disassembles.boundary (reads : Disassembles assembly start code address number)
    {label : Label} (member : .bind label ∈ code) :
    assembly.IsBoundary (address label) := by
  rcases reads.aligned label member with ends | ⟨emitted, listed, same⟩
  · exact Or.inl ends
  · refine Or.inr ⟨emitted.2.decoded address number emitted.1, ?_, same⟩
    rw [reads.decoded]
    exact List.mem_toArray.2 (List.mem_map_of_mem listed)

theorem Disassembles.entry (reads : Disassembles assembly start code address number) {ip : UInt32}
    (entry : ip ∈ assembly.entries) : assembly.IsBoundary ip := by
  have listed := Array.mem_toList_iff.2 entry
  rw [reads.entries] at listed
  obtain ⟨label, member, rfl⟩ := List.mem_map.1 listed
  exact reads.boundary (reads.entered label member)

theorem Disassembles.permits (reads : Disassembles assembly start code address number)
    {instruction : Decoded} (member : instruction ∈ assembly.decode.1) {position : Nat}
    (stands : assembly.Stands instruction position) (static : instruction.op ≠ .callDynamic) :
    Exec.Permits assembly.IsBoundary assembly.code instruction.op (position + 1) := by
  have operands := stands.operands
  rw [reads.decoded] at member
  obtain ⟨emitted, listed, rfl⟩ := List.mem_map.1 (List.mem_toArray.1 member)
  have bound : ∀ label, emitted.2.label? = some label → assembly.IsBoundary (address label) :=
    fun label refers => reads.boundary (reads.labels emitted listed label refers)
  obtain ⟨offset, written⟩ := emitted
  cases written with
  | plain op => cases op <;> trivial
  | jump label =>
    change assembly.IsBoundary (Bytes.u32At assembly.code (position + 1))
    rw [← toUInt32_injective (List.cons.inj operands).1]
    exact bound label rfl
  | jumpIf label =>
    change assembly.IsBoundary (Bytes.u32At assembly.code (position + 1))
    rw [← toUInt32_injective (List.cons.inj operands).1]
    exact bound label rfl
  | call label arguments mode =>
    change assembly.IsBoundary (Bytes.u32At assembly.code (position + 1))
    rw [← toUInt32_injective (List.cons.inj operands).1]
    exact bound label rfl
  | callDynamic arguments mode => exact absurd rfl static
  | _ => trivial

end Fragment

/-! ## Operands of instructions -/

/-- Carrying out an instruction depends on the bits of its operands and on the literals only, not on
where the operands stand. -/
theorem Exec.perform_congr {assembly other : Assembly}
    (literals : other.literals = assembly.literals)
    {op : Opcode} {position otherPosition : Nat}
    (same : readOperands other.code otherPosition op.operands =
      readOperands assembly.code position op.operands) :
    perform other op otherPosition = perform assembly op position := by
  cases op with
  | loadInt | loadFloat | loadString | loadAddress | jump | jumpIf =>
    have word := toUInt32_injective (List.cons.inj same).1
    simp only [perform, word, loadString, Assembly.literal?, literals]
  | loadLong =>
    have long : Bytes.u64At other.code otherPosition = Bytes.u64At assembly.code position :=
      (List.cons.inj same).1
    simp only [perform, long]
  | reserveConsts | storeConst | loadConst | makeStruct | loadField | platformCall =>
    have byte := toUInt8_injective (List.cons.inj same).1
    simp only [perform, byte]
  | call =>
    obtain ⟨target, rest⟩ := List.cons.inj same
    obtain ⟨count, last⟩ := List.cons.inj rest
    have mode := toUInt8_injective (List.cons.inj last).1
    have word := toUInt32_injective target
    have byte : Bytes.byteAt other.code (otherPosition + 4) =
        Bytes.byteAt assembly.code (position + 4) := toUInt8_injective count
    change Bytes.byteAt other.code (otherPosition + 5) =
      Bytes.byteAt assembly.code (position + 5) at mode
    simp only [perform, word, byte, mode]
  | callDynamic =>
    obtain ⟨count, last⟩ := List.cons.inj same
    have byte := toUInt8_injective count
    have mode : Bytes.byteAt other.code (otherPosition + 1) =
        Bytes.byteAt assembly.code (position + 1) := toUInt8_injective (List.cons.inj last).1
    simp only [perform, byte, mode]
  | _ => rfl

/-! ## Lazy calls -/

/-- A lazy call that is still to be made goes to a permitted place. -/
def Payload.Aims (target : UInt32 → Prop) (payload : Payload) : Prop :=
  ∀ start arguments, payload = .lazy (.pending start arguments) → target start

/-- A change of contents makes no lazy call. -/
theorem Payload.Rewrites.aims {target : UInt32 → Prop} {before after : Payload}
    (rewrites : before.Rewrites after) :
    after.Aims target := by
  rintro start arguments rfl
  cases rewrites

theorem Payload.Plain.aims {target : UInt32 → Prop} {payload : Payload}
    (plain : payload.Plain target) :
    payload.Aims target := by
  rintro start arguments rfl
  exact plain

/-- A lazy call that a word refers to goes where it may. -/
theorem Heap.Each.delayed {target : UInt32 → Prop} {heap : Heap}
    (aims : heap.Each (·.Aims target)) {word : Word} {start : UInt32} {arguments : Array Word}
    (found : heap.delayed word = .ok (.pending start arguments)) :
    target start := by
  obtain ⟨object, looked, pending⟩ := delayed_eq_ok found
  exact aims.lookup? looked start arguments pending

/-! ## Executors -/

/-- An executor that is at a permitted place, and returns to such places. -/
structure Executor.Aims (target : UInt32 → Prop) (executor : Executor) : Prop where
  ip : target executor.ip
  frames : ∀ frame ∈ executor.calls.frames, target frame.returnTo

/-- A session in which every executor goes to permitted places only. -/
structure Session.Aims (target : UInt32 → Prop) (session : Session) : Prop where
  own : session.executor.Aims target
  heap : session.shared.heap.Each (·.Aims target)
  spawned : ∀ child ∈ session.shared.spawned, child.Aims target

variable {target : UInt32 → Prop}

theorem Executor.aims_start {start : UInt32} (permitted : target start) (settings : Settings)
    (id : Nat) : Executor.Aims target { Executor.start settings start with id } :=
  ⟨permitted, fun _ nobody => absurd nobody (Array.not_mem_empty _)⟩

/-- An elementary change keeps executors to the permitted places. -/
theorem Session.Effect.aims {before after : Session} (effect : Session.Effect target before after)
    (aims : before.Aims target) : after.Aims target := by
  obtain ⟨own, heap, spawned⟩ := aims
  cases effect with
  | own id ip calls promise =>
    refine ⟨⟨?_, ?_⟩, heap, spawned⟩
    · rw [ip]
      exact own.ip
    · rw [calls]
      exact own.frames
  | jump permitted => exact ⟨⟨permitted, own.frames⟩, heap, spawned⟩
  | delayed found => exact ⟨⟨heap.delayed found, own.frames⟩, heap, spawned⟩
  | enter frame same =>
    refine ⟨⟨own.ip, fun other member => ?_⟩, heap, spawned⟩
    rcases Array.mem_push.1 member with before | rfl
    · exact own.frames other before
    · rw [same]
      exact own.ip
  | leave last =>
    refine ⟨⟨own.frames _ (Array.mem_of_back? last), fun other member => ?_⟩, heap, spawned⟩
    exact own.frames other (mem_of_mem_pop member)
  | around => exact ⟨own, heap, spawned⟩
  | make payload plain => exact ⟨own, heap.allocate plain.aims, spawned⟩
  | rewrite word object change bytes found rewrites =>
    exact ⟨own, heap.modify found rfl rewrites.aims, spawned⟩
  | fork arguments permitted =>
    refine ⟨own, heap.allocate fun _ _ => nofun, fun child member => ?_⟩
    rcases List.mem_cons.1 member with rfl | before
    · exact ⟨permitted, fun _ nobody => absurd nobody (Array.not_mem_empty _)⟩
    · exact spawned child before
  | opened opens => exact ⟨own, heap.allocate fun _ _ => nofun, spawned⟩
  | refused opens => exact ⟨own, heap, spawned⟩

theorem Session.Effects.aims {before after : Session} (effects : before.Effects target after)
    (aims : before.Aims target) : after.Aims target := by
  induction effects with
  | refl => exact aims
  | tail _ effect ih => exact effect.aims ih

/-! ## Ensembles -/

namespace Ensemble

/-- An ensemble in which every executor goes to permitted places only. -/
structure Aims (target : UInt32 → Prop) (ensemble : Ensemble) : Prop where
  executors : ∀ strand ∈ ensemble.strands, strand.executor.Aims target
  heap : ensemble.shared.heap.Each (·.Aims target)

/-- Code in which an executor that is at a permitted place goes on to permitted places. -/
structure Leads (target : UInt32 → Prop) (assembly : Assembly) : Prop where
  entries : ∀ ip ∈ assembly.entries, target ip
  next : ∀ ip, target ip → ∀ op size, Exec.fetch? assembly.code ip.toNat = some (op, size) →
    target (ip + UInt32.ofNat size) ∧ Exec.Permits target assembly.code op (ip.toNat + 1)

variable {ensemble after : Ensemble} {assembly : Assembly} {settings : Settings}

theorem Aims.work (aims : ensemble.Aims target) (bounded : ensemble.Bounded assembly settings)
    (leads : Leads target assembly) {position : Nat} {strand : Strand} {computation : Exec Unit}
    {phase : Strand.Phase} {events : Session → List Event}
    (found : ensemble.strands[position]? = some strand)
    (works : ensemble.Works strand computation phase events) :
    (ensemble.perform position { strand with phase } computation events).Aims target := by
  have own := aims.executors strand (List.mem_of_getElem? found)
  have runs : Exec.Runs target (ensemble.session strand) computation := by
    refine works.runs fun op size fetched => ?_
    rw [bounded.code]
    refine leads.next strand.executor.ip own.ip op size ?_
    rw [← bounded.code]
    exact fetched
  have before : (ensemble.session strand).Aims target := by
    refine ⟨own, aims.heap, fun child member => ?_⟩
    have nobody : child ∈ ensemble.shared.spawned := member
    rw [bounded.spawned] at nobody
    cases nobody
  have after := (Session.Effects.carry runs).aims before
  refine ⟨fun other member => ?_, after.heap⟩
  rcases mem_strands_perform member with same | rfl | ⟨child, started, rfl⟩
  · exact aims.executors other same
  · exact after.own
  · exact after.spawned child started

theorem Aims.moves (aims : ensemble.Aims target) (bounded : ensemble.Bounded assembly settings)
    (leads : Leads target assembly) (moves : ensemble.Moves after) :
    after.Aims target := by
  have ⟨executors, heap⟩ := aims
  -- A strand that changes only itself, or its state and its phase, stays where it is.
  have replaced : ∀ {position : Nat} {strand changed : Strand},
      ensemble.strands[position]? = some strand →
      changed.executor.ip = strand.executor.ip → changed.executor.calls = strand.executor.calls →
      ∀ other ∈ ensemble.strands.set position changed, other.executor.Aims target := by
    intro position strand changed found ip calls other member
    rcases List.mem_or_eq_of_mem_set member with before | rfl
    · exact executors other before
    · have own := executors strand (List.mem_of_getElem? found)
      refine ⟨?_, ?_⟩
      · rw [ip]
        exact own.ip
      · rw [calls]
        exact own.frames
  cases moves with
  | enter _ entry =>
    refine ⟨fun other member => ?_, heap⟩
    rcases List.mem_append.1 member with before | started
    · exact executors other before
    · rw [List.mem_singleton.1 started]
      rw [bounded.code] at entry
      exact Executor.aims_start (leads.entries _ entry) _ _
  | work found works => exact aims.work bounded leads found works
  | mark found marks =>
    obtain ⟨state, wait, same⟩ := marks.executor
    refine ⟨replaced found ?_ ?_, heap⟩ <;> rw [same]
  | complete found =>
    exact ⟨replaced found rfl rfl, heap.modify_of_slot rfl fun _ _ _ _ _ _ => nofun⟩
  | close found => exact ⟨replaced found rfl rfl, heap⟩
  | leave => exact ⟨fun other member => executors other (List.mem_of_mem_eraseIdx member), heap⟩
  | request => exact ⟨executors, heap⟩
  | outside => exact ⟨executors, heap⟩
  | sweep =>
    refine ⟨executors, ?_⟩
    rw [sweep_heap]
    exact heap.thin (Heap.thins_collect _ _)
  | claim => exact ⟨executors, heap⟩
  | @discharge position duty _ => cases duty <;> exact ⟨executors, heap⟩
  | finish => exact ⟨executors, heap⟩
  | @visit word rest _ =>
    rcases ensemble.visit_cases word rest with ⟨_, same⟩ | ⟨stream, _, _, same⟩
    · rw [same]
      exact ⟨executors, heap⟩
    · rw [same]
      exact ⟨executors, heap.modify_of_slot rfl fun _ _ _ _ _ _ => nofun⟩

end Ensemble

/-! ## Assembled code -/

namespace Assembly

variable {assembly : Assembly} {address : Label → UInt32} {number : Bytes → UInt32}
  {start : Fragment} {code : Lowering.Code}

/-- In assembled code without dynamic calls, boundaries lead to boundaries. -/
theorem leads_boundary (reads : Fragment.Disassembles assembly start code address number)
    (short : assembly.code.size < 4294967296)
    (static : ∀ instruction ∈ assembly.decode.1, instruction.op ≠ .callDynamic) :
    Ensemble.Leads assembly.IsBoundary assembly where
  entries := fun _ entry => reads.entry entry
  next := by
    have clean : assembly.decode.2 = none := by rw [reads.decoded]
    intro ip boundary op size fetched
    rcases boundary.fetched clean short with ⟨_, nothing⟩ | ⟨instruction, member, _, stands, next⟩
    · rw [nothing] at fetched
      cases fetched
    · rw [stands.fetched] at fetched
      cases fetched
      exact ⟨next, reads.permits member stands (static instruction member)⟩

end Assembly

namespace Session

/-- An executor whose next step is the one of an instruction that was read back: the opcode and the
operands say it all, wherever they stand. -/
structure CarriesOut (session : Session) (instruction : Decoded) : Prop where
  offset : session.executor.ip = instruction.offset
  fetches : session.instruction? = some (instruction.op, instruction.op.size)
  issues : ∀ (other : Assembly) (position : Nat),
    other.literals = session.shared.assembly.literals →
    readOperands other.code position instruction.op.operands = instruction.operands →
    Exec.issue session = Exec.perform other instruction.op position
      (session.fetched instruction.op
        (session.executor.ip + UInt32.ofNat instruction.op.size))
  operands : readOperands session.shared.assembly.code (session.executor.ip.toNat + 1)
    instruction.op.operands = instruction.operands
  waits : ∀ op, session.joins? = some op → op = instruction.op

/-- An executor that has come to the end of the code, where it stops. -/
structure AtEnd (session : Session) : Prop where
  ip : session.executor.ip.toNat = session.shared.assembly.code.size
  fetches : session.instruction? = none
  issues : Exec.issue session =
    .ok () { session with executor := { session.executor with state := .invalidAssembly } }

theorem carriesOut_or_atEnd {session : Session}
    (clean : session.shared.assembly.decode.2 = none)
    (short : session.shared.assembly.code.size < 4294967296)
    (boundary : session.shared.assembly.IsBoundary session.executor.ip) :
    (∃ instruction ∈ session.shared.assembly.decode.1, session.CarriesOut instruction) ∨
      session.AtEnd := by
  rcases boundary.fetched clean short with
    ⟨ends, nothing⟩ | ⟨instruction, member, offset, stands, _⟩
  · exact Or.inr ⟨ends, nothing, Exec.issue_none session nothing⟩
  · refine Or.inl ⟨instruction, member, ?_⟩
    refine ⟨offset.symm, stands.fetched, fun other position literals same => ?_,
      stands.operands.symm, fun op joins => ?_⟩
    · rw [Exec.issue_some session stands.fetched]
      rw [Exec.perform_congr literals (same.trans stands.operands)]
    · have found := (joins?_eq_some joins).1
      unfold instruction? at found
      rw [stands.fetched] at found
      exact (Prod.mk.inj (Option.some.inj found)).1.symm

end Session

namespace Ensemble

/-- Whatever building calls made a fragment that closes without dynamic calls, and in whatever order
executors then take turns, each of them is at an instruction that reading the code back gives, or at
the end of the code. -/
theorem strands_carryOut {fragment : Fragment} {code : Lowering.Code} {assembly : Assembly}
    (made : Fragment.Made fragment code) (closed : fragment.close = .ok assembly)
    (short : assembly.code.size < 4294967296)
    (static : ∀ instruction ∈ assembly.decode.1, instruction.op ≠ .callDynamic)
    {settings : Settings} {platform : Platform} {journal : Journal} {turns : List Turn}
    {ensemble : Ensemble}
    (ran : (Ensemble.new assembly settings platform journal).run turns = some ensemble) :
    assembly.decode.2 = none ∧ ensemble.shared.assembly = assembly ∧
      ∀ strand ∈ ensemble.strands,
        (∃ instruction ∈ assembly.decode.1, (ensemble.session strand).CarriesOut instruction) ∨
          (ensemble.session strand).AtEnd := by
  obtain ⟨address, number, reads⟩ :=
    Fragment.decode_close ((made.close_eq_ok ByteArray.empty assembly).1 closed) short
  have clean : assembly.decode.2 = none := by rw [reads.decoded]
  have leads := Assembly.leads_boundary reads short static
  have start : (Ensemble.new assembly settings platform journal).Aims assembly.IsBoundary :=
    ⟨fun _ nobody => (nomatch nobody), fun _ nobody => absurd nobody (Array.not_mem_empty _)⟩
  obtain ⟨bounded, aims⟩ := @run_keeps _ _
    (fun now => now.Bounded assembly settings ∧ now.Aims assembly.IsBoundary)
    (fun _ _ both moves => ⟨both.1.moves moves, both.2.moves both.1 leads moves⟩) _
    ⟨bounded_new assembly settings platform journal, start⟩ ran
  refine ⟨clean, bounded.code, fun strand member => ?_⟩
  have same : (ensemble.session strand).shared.assembly = assembly := bounded.code
  have boundary := (aims.executors strand member).ip
  rw [← same] at clean short boundary ⊢
  exact Session.carriesOut_or_atEnd clean short boundary

/-- The loop after its first text: it is at the jump that leaves it. -/
theorem strands_carryOut_loop :
    ∃ ensemble,
      (Ensemble.new Fragment.loopAssembly { evalStack := 2 } default .off).run
          [.enter 0, .strand 0 .issue] = some ensemble ∧
        ensemble.strands.map (·.executor.ip) = [5] ∧
        ∀ strand ∈ ensemble.strands,
          (∃ instruction ∈ Fragment.loopAssembly.decode.1,
            (ensemble.session strand).CarriesOut instruction) ∨
              (ensemble.session strand).AtEnd := by
  have made := (Fragment.Made.empty ByteArray.empty).foldl Fragment.loopCode
  have closed := ((Fragment.renders_foldl ByteArray.empty Fragment.loopCode).close_eq_ok
    Fragment.loopAssembly).2 Fragment.assemble?_loopCode
  have reached : ((Ensemble.new Fragment.loopAssembly { evalStack := 2 } default .off).run
      [.enter 0, .strand 0 .issue]).map (·.strands.map (·.executor.ip)) = some [5] := by
    decide +kernel
  obtain ⟨ensemble, ran, places⟩ := Option.map_eq_some_iff.1 reached
  exact ⟨ensemble, ran, places,
    (strands_carryOut made closed (by decide) (by decide +kernel) ran).2.2⟩

end Ensemble

end WordMachine
