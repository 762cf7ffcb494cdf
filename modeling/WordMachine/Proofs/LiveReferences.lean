import WordMachine.Proofs.SafeInstructions
import WordMachine.Machine.Schedule
import Mathlib.Logic.Relation

/-!
No executor ever sees a freed object. Executors take turns in any order and a collection may come
between any two of their instructions or while they wait; still every reference an executor holds,
or can get at, leads to an object.
-/

namespace WordMachine

namespace Machine

/-- Takes over what an executor has done. -/
def update (machine : Machine) (position : Nat) (session : Session) : Machine :=
  { machine with
    shared := session.shared
    executors := machine.executors.setIfInBounds position session.executor }

/-- What can happen to a machine next, under any schedule. Slots are numbered by 32 bits, so an
executor goes on only while one more slot has a number. -/
inductive Move : Machine → Machine → Prop
  | start (machine : Machine) (ip : UInt32) (id : Nat) :
      Move machine
        { machine with
          shared := { machine.shared with started := id }
          executors := machine.executors.push
            { Executor.start machine.shared.settings ip with id } }
  /-- A running executor carries out an instruction, up to the point where it has to wait. -/
  | issue {machine : Machine} {position : Nat} {executor : Executor} :
      machine.executors[position]? = some executor →
      executor.state = .running →
      machine.shared.heap.slots.size + 1 < 2 ^ 32 →
      Move machine
        (machine.update position (Session.carry Exec.issue ⟨executor, machine.shared⟩)).adopt
  /-- A waiting executor makes an attempt. -/
  | settle {machine : Machine} {position : Nat} {executor : Executor} :
      machine.executors[position]? = some executor →
      executor.state = .paused →
      machine.shared.heap.slots.size + 1 < 2 ^ 32 →
      Move machine
        (machine.update position (Session.carry Exec.settle ⟨executor, machine.shared⟩)).adopt
  | stop {machine : Machine} {position : Nat} {executor : Executor} :
      machine.executors[position]? = some executor →
      Move machine
        (machine.update position
          ⟨{ executor with state := .aborted, wait := none }, machine.shared⟩)
  | abort (machine : Machine) :
      Move machine machine.abort
  /-- An executor that has ended leaves, and a forked call hands over its result. -/
  | retire {machine : Machine} {position : Nat} {executor : Executor} :
      machine.executors[position]? = some executor →
      executor.state.isTerminal = true →
      Move machine
        (({ machine with executors := machine.executors.eraseIdxIfInBounds position }).retire
          executor)
  /-- A collection is asked for, or the request taken up. -/
  | request (machine : Machine) (requested : Bool) :
      Move machine
        { machine with
          shared := { machine.shared with heap := { machine.shared.heap with requested } } }
  | collect (machine : Machine) :
      Move machine { machine with shared := (machine.shared.collect machine.roots).2 }
  /-- Something happens outside: time passes, input arrives, a line is logged. -/
  | outside (machine : Machine) (platform : Platform) (journal : Journal)
      (milestones : Array (Milestone × Nat)) (entryState : Option ExecState) :
      Move machine
        { machine with
          shared := { machine.shared with platform, journal, milestones }
          entryState }

/-- A machine without a reference that leads nowhere. -/
structure Safe (machine : Machine) : Prop where
  intact : machine.shared.heap.Intact
  rooted : ∀ executor ∈ machine.executors, executor.Rooted machine.shared.heap
  spawned : machine.shared.spawned = []
  fault : ∀ report, machine.shared.fault = some report → report.fault.Permitted

/-! ## Steps -/

theorem Safe.session {machine : Machine} (safe : machine.Safe) {executor : Executor}
    (member : executor ∈ machine.executors) : Session.Safe ⟨executor, machine.shared⟩ where
  intact := safe.intact
  own := safe.rooted executor member
  spawned := by
    intro child joined
    have nobody : child ∈ machine.shared.spawned := joined
    rw [safe.spawned] at nobody
    cases nobody
  fault := safe.fault

theorem Safe.advance {machine : Machine} (safe : machine.Safe) {executor : Executor}
    {session : Session} (position : Nat) {spare : Nat}
    (evolved : Session.Evolves spare ⟨executor, machine.shared⟩ session) :
    (machine.update position session).adopt.Safe := by
  have rooted : ∀ other ∈ (machine.update position session).executors,
      other.Rooted session.shared.heap := by
    intro other member
    rcases Array.mem_or_eq_of_mem_setIfInBounds member with before | rfl
    · exact (safe.rooted other before).mono evolved.grown
    · exact evolved.safe.own
  unfold Machine.adopt
  split
  · next nothing => exact ⟨evolved.safe.intact, rooted, nothing, evolved.safe.fault⟩
  · refine ⟨evolved.safe.intact, ?_, rfl, evolved.safe.fault⟩
    intro other member
    rcases Array.mem_append.1 member with before | joined
    · exact rooted other before
    · exact evolved.safe.spawned other (List.mem_reverse.1 (List.mem_toArray.1 joined))

end Machine

theorem Session.Safe.raise {session : Session} (safe : session.Safe) {fault : Fault}
    (permitted : fault.Permitted) : (session.raise fault).Safe := by
  unfold Session.raise
  have rooted : Executor.Rooted session.shared.heap
      { session.executor with state := .invalidAssembly, faulted := true, wait := none } :=
    ⟨safe.own.eval, safe.own.consts, safe.own.promise⟩
  split
  · exact ⟨safe.intact, rooted, safe.spawned, safe.fault⟩
  · refine ⟨safe.intact, rooted, safe.spawned, ?_⟩
    rintro report ⟨⟩
    exact permitted

theorem Session.raise_heap (session : Session) (fault : Fault) :
    (session.raise fault).shared.heap = session.shared.heap := by
  unfold Session.raise
  split <;> rfl

theorem Exec.Safe.carry {computation : Exec Unit} {spare : Nat} {session : Session}
    (safe : Exec.Safe spare session.shared.heap computation Anything) (sessionSafe : session.Safe)
    (room : session.shared.heap.slots.size + spare < 2 ^ 32) :
    session.Evolves spare (session.carry computation) := by
  have yields := safe session sessionSafe (Heap.Extends.refl _) room
  unfold Session.carry
  cases result : computation session with
  | ok value after =>
    rw [result] at yields
    exact yields.1
  | error fault after =>
    rw [result] at yields
    obtain ⟨evolved, permitted⟩ := yields
    refine ⟨evolved.safe.raise permitted, ?_, ?_⟩
    · simp only [Session.raise_heap]
      exact evolved.grown
    · simp only [Session.raise_heap]
      exact evolved.size

namespace Machine

variable {machine : Machine} {executor : Executor}

theorem Safe.retire (safe : machine.Safe) (rooted : executor.Rooted machine.shared.heap) :
    (machine.retire executor).Safe := by
  unfold Machine.retire
  split
  · exact ⟨safe.intact, safe.rooted, safe.spawned, safe.fault⟩
  · next promise promised =>
    obtain ⟨⟨_, object, found⟩, resolves⟩ := rooted.promise promise promised
    have refers : ∀ next,
        (Payload.future (some (executor.result, executor.state))).Refers next →
        machine.shared.heap.Resolves next := by
      intro next held
      generalize executor.state = state at held
      cases held
      exact resolves
    obtain ⟨now, grown⟩ := safe.intact.setPayload found refers nofun
    exact ⟨now, fun other member => (safe.rooted other member).mono grown, safe.spawned,
      safe.fault⟩

theorem mem_of_mem_eraseIdxIfInBounds {α : Type} {items : Array α} {position : Nat} {item : α}
    (member : item ∈ items.eraseIdxIfInBounds position) : item ∈ items := by
  unfold Array.eraseIdxIfInBounds at member
  split at member
  · exact Array.mem_of_mem_eraseIdx member
  · exact member

theorem Safe.remove (safe : machine.Safe) (position : Nat) :
    Safe { machine with executors := machine.executors.eraseIdxIfInBounds position } :=
  ⟨safe.intact, fun other member => safe.rooted other (mem_of_mem_eraseIdxIfInBounds member),
    safe.spawned, safe.fault⟩

theorem rooted_start (heap : Heap) (settings : Settings) (ip : UInt32) (id : Nat) :
    Executor.Rooted heap { Executor.start settings ip with id } where
  eval := by
    intro word member
    simp [Executor.start] at member
  consts := by
    intro word member
    simp [Executor.start] at member
  promise := by
    rintro word ⟨⟩

theorem Safe.mem_roots (member : executor ∈ machine.executors) {word : Word}
    (root : word ∈ executor.roots) : word ∈ machine.roots :=
  List.mem_flatMap.2 ⟨executor, Array.mem_toList_iff.2 member, root⟩

theorem Safe.roots (safe : machine.Safe) :
    ∀ word ∈ machine.roots, machine.shared.heap.Resolves word := by
  intro word member
  obtain ⟨executor, listed, root⟩ := List.mem_flatMap.1 member
  exact (safe.rooted executor (Array.mem_toList_iff.1 listed)).roots word root

/-- An executor whose words are among the roots of a collection keeps its objects. -/
theorem rooted_of_roots {before after : Heap} (rooted : executor.Rooted before)
    (kept : ∀ word ∈ executor.roots, after.Resolves word) : executor.Rooted after where
  eval := by
    intro word member
    refine kept word (List.mem_append_left _ (List.mem_append_left _ ?_))
    exact Array.mem_toList_iff.2 member
  consts := by
    intro word member
    refine kept word (List.mem_append_left _ (List.mem_append_right _ ?_))
    exact Array.mem_toList_iff.2 member
  promise := by
    intro word promised
    have listed : ∀ other ∈ [word, executor.result], after.Resolves other := by
      intro other member
      refine kept other (List.mem_append_right _ ?_)
      rw [promised]
      exact member
    have leads := (rooted.promise word promised).1
    exact ⟨(listed word List.mem_cons_self).leads leads,
      listed _ (List.mem_cons_of_mem _ List.mem_cons_self)⟩

theorem collect_spawned (shared : Shared) (roots : List Word) :
    (shared.collect roots).2.spawned = shared.spawned :=
  Shared.collect_keeps Exec.log_spawned (fun _ _ => rfl) (fun _ _ => rfl) shared roots

theorem collect_fault (shared : Shared) (roots : List Word) :
    (shared.collect roots).2.fault = shared.fault :=
  Shared.collect_keeps Exec.log_fault (fun _ _ => rfl) (fun _ _ => rfl) shared roots

/-- A collection that is given the words of all executors keeps their objects. -/
theorem Safe.collect (safe : machine.Safe) :
    Safe { machine with shared := (machine.shared.collect machine.roots).2 } := by
  obtain ⟨now, kept⟩ := safe.intact.collect machine.roots safe.roots
  rw [← Shared.collect_heap] at now kept
  constructor
  case intact => exact now
  case rooted =>
    intro executor member
    have listed : executor ∈ machine.executors := member
    refine rooted_of_roots (safe.rooted executor listed) fun word root => ?_
    exact kept word (.root (Safe.mem_roots listed root))
  case spawned => exact (collect_spawned _ _).trans safe.spawned
  case fault =>
    intro report recorded
    exact safe.fault report ((collect_fault _ _).symm.trans recorded)

theorem Safe.request (safe : machine.Safe) (requested : Bool) :
    Safe { machine with
      shared := { machine.shared with heap := { machine.shared.heap with requested } } } :=
  ⟨⟨safe.intact.wellFormed.pace _ _, safe.intact.closed, safe.intact.chains⟩,
    fun executor member =>
      ⟨(safe.rooted executor member).eval, (safe.rooted executor member).consts,
        (safe.rooted executor member).promise⟩,
    safe.spawned, safe.fault⟩

theorem Safe.step {after : Machine} (safe : machine.Safe) (move : Move machine after) :
    after.Safe := by
  cases move with
  | start ip id =>
    refine ⟨safe.intact, ?_, safe.spawned, safe.fault⟩
    intro executor member
    rcases Array.mem_push.1 member with before | rfl
    · exact safe.rooted executor before
    · exact rooted_start _ _ _ _
  | issue found _ room =>
    have member := Array.mem_of_getElem? found
    exact safe.advance _ (Exec.safe_issue.carry (safe.session member) room)
  | settle found _ room =>
    have member := Array.mem_of_getElem? found
    exact safe.advance _ (Exec.safe_settle.carry (safe.session member) room)
  | stop found =>
    have member := Array.mem_of_getElem? found
    have rooted := safe.rooted _ member
    refine ⟨safe.intact, ?_, safe.spawned, safe.fault⟩
    intro other otherMember
    rcases Array.mem_or_eq_of_mem_setIfInBounds otherMember with before | rfl
    · exact safe.rooted other before
    · exact ⟨rooted.eval, rooted.consts, rooted.promise⟩
  | abort => exact ⟨safe.intact, safe.rooted, safe.spawned, safe.fault⟩
  | @retire position executor found _ =>
    have member := Array.mem_of_getElem? found
    exact (safe.remove position).retire (safe.rooted executor member)
  | request requested => exact safe.request requested
  | collect => exact safe.collect
  | outside platform journal milestones entryState =>
    exact ⟨safe.intact, safe.rooted, safe.spawned, safe.fault⟩

theorem safe_new (assembly : Assembly) (settings : Settings) (platform : Platform)
    (journal : Journal) : (Machine.new assembly settings platform journal).Safe where
  intact := by
    have sound := Heap.Sound.new settings.gcInterval.toInt settings.heapLimit.toInt
    have empty : ∀ handle object,
        (Machine.new assembly settings platform journal).shared.heap.lookup? handle ≠
          some object := by
      intro handle object found
      obtain ⟨slot, slotFound, _⟩ := Heap.lookup?_eq_some.1 found
      simp [Heap.new, Heap.slot?, Machine.new] at slotFound
    refine ⟨sound.wellFormed, ?_, ⟨fun word => ⟨word, ?_⟩⟩⟩
    · exact fun handle object word found => absurd found (empty handle object)
    · rintro previous ⟨object, byte, flat, found, _⟩
      exact absurd (Heap.deref_lookup? found) (empty _ object)
  rooted := by
    intro executor member
    simp [Machine.new] at member
  spawned := rfl
  fault := by
    rintro report ⟨⟩

theorem Safe.run {after : Machine} (safe : machine.Safe)
    (moves : Relation.ReflTransGen Move machine after) : after.Safe := by
  induction moves with
  | refl => exact safe
  | tail _ move ih => exact ih.step move

/-- Words that safe executors can get at lead to objects. -/
theorem Safe.reached (safe : machine.Safe) {word : Word}
    (reached : Heap.Reached machine.shared.heap machine.roots word) :
    machine.shared.heap.Resolves word := by
  cases reached with
  | root member => exact safe.roots word member
  | follow _ _ found refers => exact safe.intact.closed _ _ _ found refers

/-- In every machine that any schedule leads to, each reference that an executor holds or can get
at leads to a slot of its generation with an object in it. So a fault about a reference is never
about a freed object: it names a word that is no reference, or the null reference. -/
theorem references_lead_to_objects {assembly : Assembly} {settings : Settings}
    {platform : Platform} {journal : Journal} {machine : Machine}
    (moves : Relation.ReflTransGen Move (Machine.new assembly settings platform journal) machine) :
    (∀ word, Heap.Reached machine.shared.heap machine.roots word →
      word.isRef = true → word.isNull = false →
      ∃ slot object, machine.shared.heap.slot? word.toHandle.index = some slot ∧
        slot.generation = word.toHandle.generation ∧ slot.object = some object) ∧
      (∀ report, machine.shared.fault = some report → report.fault.Permitted) ∧
      ∀ executor ∈ machine.executors, machine.shared.heap.slots.size + 1 < 2 ^ 32 →
        ∀ fault after,
          Exec.issue ⟨executor, machine.shared⟩ = .error fault after ∨
            Exec.settle ⟨executor, machine.shared⟩ = .error fault after →
          fault.Permitted := by
  have safe := (safe_new assembly settings platform journal).run moves
  refine ⟨?_, safe.fault, ?_⟩
  · intro word reached isRef notNull
    obtain ⟨object, found⟩ := safe.reached reached isRef notNull
    obtain ⟨slot, slotFound, generation, objectFound⟩ := Heap.lookup?_eq_some.1 found
    exact ⟨slot, object, slotFound, generation, objectFound⟩
  · intro executor member room fault after raised
    have session := safe.session member
    rcases raised with issued | settled
    · have yields := Exec.safe_issue _ session (Heap.Extends.refl _) room
      rw [issued] at yields
      exact yields.2
    · have yields := Exec.safe_settle _ session (Heap.Extends.refl _) room
      rw [settled] at yields
      exact yields.2

/-- A program that makes a string, drops it and makes it again. -/
def remaking : Assembly where
  code := ⟨#[0x04, 0, 0, 0, 0, 0x14, 0x04, 0, 0, 0, 0]⟩
  literals := #[ByteArray.empty]
  entries := #[0]

/-- The first executor carries out an instruction. -/
def issueFirst (machine : Machine) : Machine :=
  match machine.executors[0]? with
  | some executor =>
    (machine.update 0 (Session.carry Exec.issue ⟨executor, machine.shared⟩)).adopt
  | none => machine

theorem move_issueFirst (running : (machine.executors[0]?.map Executor.state) = some .running)
    (room : machine.shared.heap.slots.size + 1 < 2 ^ 32) : Move machine machine.issueFirst := by
  obtain ⟨executor, found, state⟩ := Option.map_eq_some_iff.1 running
  unfold issueFirst
  rw [found]
  exact .issue found state room

/-- A collection comes after the string was dropped, so that its slot is used again. -/
theorem references_lead_to_objects_remaking :
    ∃ machine,
      Relation.ReflTransGen Move (Machine.new remaking { evalStack := 1 } default .off) machine ∧
        machine.roots = [.ofHandle (.make 1 1)] ∧
        ∃ slot object, machine.shared.heap.slot? 1 = some slot ∧ slot.generation = 1 ∧
          slot.object = some object := by
  have start := Relation.ReflTransGen.single
    (Move.start (Machine.new remaking { evalStack := 1 } default .off) 0 1)
  have made := start.tail (move_issueFirst (by decide) (by decide))
  have dropped := made.tail (move_issueFirst (by decide) (by decide))
  have collected := dropped.tail (.collect _)
  have remade := collected.tail (move_issueFirst (by decide) (by decide))
  refine ⟨_, remade, by decide, ?_⟩
  exact (references_lead_to_objects remade).1 (.ofHandle (.make 1 1))
    (.root (by decide)) (by decide) (by decide)

end Machine

end WordMachine
