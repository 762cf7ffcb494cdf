import WordMachine.Machine.Schedule
import WordMachine.Proofs.Collection

/-!
Runs of a single executor. It makes one move at a time, an instruction or a collection; where these
lead decides what an entry point ends in. A run that reaches a bound of the machine on the way has
run out of it, and nothing more is said about it.
-/

namespace WordMachine

/-! ## What is written -/

/-- What a program shows of the shared state, and what may stop it. What is written while a log goes
to the console is not only the program's. -/
structure Surface where
  assembly : Assembly
  aborting : Bool
  spawned : List Executor
  written : Option (Bytes × Bytes)

def Shared.surface (shared : Shared) : Surface where
  assembly := shared.assembly
  aborting := shared.aborting
  spawned := shared.spawned
  written :=
    match shared.journal with
    | .console => none
    | _ => some (shared.platform.output, shared.platform.errors)

namespace Shared

@[simp]
theorem surface_log (shared : Shared) (line : Unit → Bytes) :
    (shared.log line).surface = shared.surface := by
  unfold log
  split <;> rfl

@[simp]
theorem surface_report (shared : Shared) (milestone : Milestone) :
    (shared.report milestone).surface = shared.surface := rfl

@[simp]
theorem surface_withHeap (shared : Shared) (heap : Heap) :
    ({ shared with heap } : Shared).surface = shared.surface := rfl

theorem written_note (platform : Platform) (handle : Option Nat) (event : Nat → FileEvent) :
    (platform.note handle event).output = platform.output ∧
      (platform.note handle event).errors = platform.errors := by
  cases handle <;> exact ⟨rfl, rfl⟩

theorem written_release (stream : Stream) (platform : Platform) :
    (stream.release platform).output = platform.output ∧
      (stream.release platform).errors = platform.errors := by
  unfold Stream.release
  cases stream.endpoint with
  | none => exact ⟨rfl, rfl⟩
  | channel channel => cases channel <;> exact ⟨rfl, rfl⟩
  | listener number => exact ⟨rfl, rfl⟩

theorem written_discard (stream : Stream) (platform : Platform) :
    (stream.discard platform).output = platform.output ∧
      (stream.discard platform).errors = platform.errors := by
  unfold Stream.discard
  cases stream.removeOnClose with
  | none => exact ⟨rfl, rfl⟩
  | some path =>
    refine ⟨(written_note _ _ _).1.trans ?_, (written_note _ _ _).2.trans ?_⟩ <;>
      · unfold Platform.withoutFile Platform.removeFile
        cases platform.files.remove? path <;> rfl

theorem written_close (stream : Stream) (platform : Platform) :
    (stream.close platform).2.output = platform.output ∧
      (stream.close platform).2.errors = platform.errors := by
  unfold Stream.close
  split
  · exact ⟨rfl, rfl⟩
  · obtain ⟨output, errors⟩ := written_discard stream (stream.release platform)
    obtain ⟨released, reported⟩ := written_release stream platform
    exact ⟨output.trans released, errors.trans reported⟩

theorem surface_closeStream (shared : Shared) (stream : Stream) :
    (shared.closeStream stream).surface = shared.surface := by
  obtain ⟨output, errors⟩ := written_close stream shared.platform
  unfold surface closeStream
  simp only [output, errors]

theorem surface_collect (shared : Shared) (roots : List Word) :
    (shared.collect roots).2.surface = shared.surface :=
  collect_keeps surface_log surface_closeStream surface_report shared roots

end Shared

/-! ## Moves -/

namespace Heap

/-- Sweeping changes the slots, the free ones and the list of those in use only. -/
theorem Sweeping.step_keeps {α : Type} (view : Heap → α)
    (keeps : ∀ heap slots free head, view { heap with slots, free, head } = view heap)
    (sweeping : Sweeping) : view sweeping.step.heap = view sweeping.heap := by
  obtain ⟨heap, previous, index, freed⟩ := sweeping
  cases found : heap.slot? index with
  | none => simp only [step, found]
  | some slot =>
    cases marked : slot.marked with
    | true =>
      simp only [step, found, marked, if_true]
      exact keeps heap _ heap.free heap.head
    | false =>
      simp only [step, found, marked, link]
      cases previous == 0 <;> exact keeps heap _ _ _

theorem Sweeping.run_keeps {α : Type} (view : Heap → α)
    (keeps : ∀ heap slots free head, view { heap with slots, free, head } = view heap) (count : Nat)
    (sweeping : Sweeping) : view (run count sweeping).heap = view sweeping.heap := by
  induction count generalizing sweeping with
  | zero => rfl
  | succ count ih =>
    unfold run
    split
    · rfl
    · rw [ih, step_keeps view keeps]

theorem collect_requested {heap : Heap} (wellFormed : WellFormed heap) (roots : List Word) :
    (heap.collect roots).1.requested = heap.requested := by
  have marked := congrArg Heap.requested (mark_onlyMarks wellFormed roots).rest
  unfold collect sweep sweeping
  exact (Sweeping.run_keeps Heap.requested (fun _ _ _ _ => rfl) _ _).trans marked

end Heap

namespace Session

variable {session after : Session} {goal : Session → Prop} {count : Nat}

def collected (session : Session) : Session :=
  { session with
    shared := (({ session.shared with
      heap := { session.shared.heap with requested := false } } : Shared).collect
        session.executor.roots).2 }

theorem collected_executor (session : Session) : session.collected.executor = session.executor := by
  unfold collected
  rfl

theorem collected_requested (sound : session.shared.heap.Sound) :
    session.collected.shared.heap.requested = false := by
  have heap : session.collected.shared.heap =
      ({ session.shared.heap with requested := false }.collect session.executor.roots).1 :=
    Shared.collect_heap _ _
  rw [heap, Heap.collect_requested (sound.pace session.shared.heap.left false).wellFormed]

/-- Carries out a requested collection, or else the next instruction. -/
def next (session : Session) : Session :=
  if session.shared.heap.requested then session.collected
  else
    match Exec.step session with
    | .ok () session => session
    | .error fault session => session.raise fault

/-- Whether nothing keeps a session from its next move, and it is alone. -/
structure Calm (session : Session) : Prop where
  running : session.executor.state = .running
  promise : session.executor.promise = none
  aborting : session.shared.aborting = false
  spawned : session.shared.spawned = []

/-- A number of moves from one session to another. -/
def Path : Nat → Session → Session → Prop
  | 0, session, after => session = after
  | count + 1, session, after => session.Calm ∧ Path count session.next after

/-- Whether a bound of the machine is reached: a full stack, a full heap, or no slot
numbers left. -/
def RunsOut (session : Session) : Prop :=
  session.executor.state = .stackOverflow ∨ session.executor.state = .allocFailed ∨
    2 ^ 32 ≤ session.shared.heap.slots.size + 1

/-- Whether moves lead to a goal, unless the machine runs out. -/
def Leads (session : Session) (goal : Session → Prop) : Prop :=
  ∃ count after, Path count session after ∧ (goal after ∨ after.RunsOut)

/-- Whether a session makes a number of moves, unless the machine runs out. -/
def Lasts (session : Session) (count : Nat) : Prop :=
  (∃ after, Path count session after) ∨
    ∃ steps after, Path steps session after ∧ after.RunsOut

theorem Path.trans {first second : Nat} {middle : Session} (before : Path first session middle)
    (rest : Path second middle after) : Path (first + second) session after := by
  induction first generalizing session with
  | zero =>
    cases before
    rw [Nat.zero_add]
    exact rest
  | succ first ih =>
    rw [Nat.succ_add]
    exact ⟨before.1, ih before.2⟩

theorem Path.split {first second : Nat} (path : Path (first + second) session after) :
    ∃ middle, Path first session middle ∧ Path second middle after := by
  induction first generalizing session with
  | zero =>
    rw [Nat.zero_add] at path
    exact ⟨session, rfl, path⟩
  | succ first ih =>
    rw [Nat.succ_add] at path
    obtain ⟨middle, before, rest⟩ := ih path.2
    exact ⟨middle, ⟨path.1, before⟩, rest⟩

theorem Path.eq_iterate (path : Path count session after) :
    after = next^[count] session ∧
      ∀ fewer < count, (next^[fewer] session).executor.state = .running := by
  induction count generalizing session with
  | zero => exact ⟨path.symm, fun _ less => absurd less (Nat.not_lt_zero _)⟩
  | succ count ih =>
    obtain ⟨same, running⟩ := ih path.2
    refine ⟨same, fun fewer less => ?_⟩
    cases fewer with
    | zero => exact path.1.running
    | succ fewer => exact running fewer (Nat.lt_of_succ_lt_succ less)

theorem not_leads (bound : Nat) (ends : (next^[bound] session).executor.state ≠ .running)
    (misses : ∀ count ≤ bound,
      ¬goal (next^[count] session) ∧ ¬(next^[count] session).RunsOut) : ¬session.Leads goal := by
  rintro ⟨count, after, path, reached⟩
  obtain ⟨rfl, running⟩ := path.eq_iterate
  have short : count ≤ bound := by
    by_contra long
    exact ends (running bound (Nat.lt_of_not_le long))
  exact reached.elim (misses count short).1 (misses count short).2

theorem Leads.here (done : goal session) : session.Leads goal :=
  ⟨0, session, rfl, Or.inl done⟩

theorem Leads.out (out : session.RunsOut) : session.Leads goal :=
  ⟨0, session, rfl, Or.inr out⟩

theorem Leads.trans {between : Session → Prop} (before : session.Leads between)
    (rest : ∀ middle, between middle → middle.Leads goal) : session.Leads goal := by
  obtain ⟨first, middle, path, reached | out⟩ := before
  · obtain ⟨second, after, tail, done⟩ := rest middle reached
    exact ⟨first + second, after, path.trans tail, done⟩
  · exact ⟨first, middle, path, Or.inr out⟩

theorem Leads.mono {weaker : Session → Prop} (leads : session.Leads goal)
    (weaken : ∀ after, goal after → weaker after) : session.Leads weaker :=
  leads.trans fun after reached => .here (weaken after reached)

theorem Leads.next (calm : session.Calm) (leads : session.next.Leads goal) :
    session.Leads goal := by
  obtain ⟨count, after, path, done⟩ := leads
  exact ⟨count + 1, after, ⟨calm, path⟩, done⟩

theorem Lasts.mono {fewer : Nat} (lasts : session.Lasts count) (less : fewer ≤ count) :
    session.Lasts fewer := by
  rcases lasts with ⟨after, path⟩ | out
  · rw [← Nat.add_sub_cancel' less] at path
    obtain ⟨middle, before, _⟩ := path.split
    exact Or.inl ⟨middle, before⟩
  · exact Or.inr out

theorem Leads.lasts {between : Session → Prop} (before : session.Leads between)
    (rest : ∀ middle, between middle → middle.Lasts count) : session.Lasts count := by
  obtain ⟨first, middle, path, reached | out⟩ := before
  · rcases rest middle reached with ⟨after, tail⟩ | ⟨steps, after, tail, out⟩
    · exact Lasts.mono (Or.inl ⟨after, path.trans tail⟩) (Nat.le_add_left _ _)
    · exact Or.inr ⟨first + steps, after, path.trans tail, out⟩
  · exact Or.inr ⟨first, middle, path, out⟩

theorem Lasts.next (calm : session.Calm) (lasts : session.next.Lasts count) :
    session.Lasts (count + 1) := by
  rcases lasts with ⟨after, path⟩ | ⟨steps, after, path, out⟩
  · exact Or.inl ⟨after, calm, path⟩
  · exact Or.inr ⟨steps + 1, after, ⟨calm, path⟩, out⟩

/-! ## Turns -/

/-- A turn makes moves of the run, until the run is over or a collection is due. -/
theorem steps_path {limit : Nat} (path : Path count session after)
    (bounded : after.executor.state ≠ .running ∨ limit ≤ count) :
    ∃ made rest, made + rest = count ∧ made ≤ limit ∧ Path made session (session.steps limit) ∧
      Path rest (session.steps limit) after ∧
      (made = 0 → limit = 0 ∨ rest = 0 ∨ session.shared.heap.requested = true) := by
  induction limit generalizing session count with
  | zero => exact ⟨0, count, Nat.zero_add count, Nat.le_refl 0, rfl, path, fun _ => Or.inl rfl⟩
  | succ limit ih =>
    cases count with
    | zero =>
      have same : session = after := path
      rcases bounded with ended | less
      · have stays : session.steps (limit + 1) = session := by
          unfold steps
          split
          · next running => exact absurd (same ▸ running) ended
          · rfl
        rw [stays]
        exact ⟨0, 0, rfl, Nat.zero_le _, rfl, path, fun _ => Or.inr (Or.inl rfl)⟩
      · exact absurd less (Nat.not_succ_le_zero limit)
    | succ count =>
      obtain ⟨calm, path⟩ := path
      cases requested : session.shared.heap.requested with
      | true =>
        have stays : session.steps (limit + 1) = session := by
          simp [steps, calm.running, requested]
        rw [stays]
        exact ⟨0, count + 1, Nat.zero_add _, Nat.zero_le _, rfl, ⟨calm, path⟩,
          fun _ => Or.inr (Or.inr rfl)⟩
      | false =>
        have unasked : (session.shared.aborting || session.shared.heap.requested) = false := by
          rw [calm.aborting, requested]
          rfl
        cases done : Exec.step session with
        | ok value later =>
          have moved : session.next = later := by simp [next, requested, done]
          have goes : session.steps (limit + 1) = later.steps limit := by
            simp [steps, calm.running, unasked, done]
          rw [moved] at path
          obtain ⟨made, rest, total, few, before, tail, _⟩ :=
            ih path (bounded.imp_right Nat.le_of_succ_le_succ)
          rw [goes]
          exact ⟨made + 1, rest, by omega, Nat.succ_le_succ few,
            ⟨calm, moved.symm ▸ before⟩, tail, nofun⟩
        | error fault later =>
          have moved : session.next = later.raise fault := by simp [next, requested, done]
          have goes : session.steps (limit + 1) = later.raise fault := by
            simp [steps, calm.running, unasked, done]
          rw [goes]
          exact ⟨1, count, Nat.add_comm 1 count, Nat.succ_le_succ (Nat.zero_le limit),
            ⟨calm, moved⟩, moved ▸ path, nofun⟩

end Session

namespace Machine

variable {session : Session}

def ofSession (session : Session) : Machine where
  shared := session.shared
  executors := #[session.executor]

theorem adopt_of_spawned {machine : Machine} (spawned : machine.shared.spawned = []) :
    machine.adopt = machine := by
  unfold adopt
  rw [spawned]

theorem turnAt_calm (calm : session.Calm) (later : (session.steps Session.turnLength).Calm) :
    (ofSession session).turnAt 0 =
      ofSession (if (session.steps Session.turnLength).shared.heap.requested then
        (session.steps Session.turnLength).collected else session.steps Session.turnLength) := by
  have turned : Session.turn ⟨session.executor, session.shared⟩ =
      session.steps Session.turnLength := by
    simp [Session.turn, Session.logEnd, calm.running, calm.aborting, later.running,
      ExecState.isTerminal]
  generalize session.steps Session.turnLength = after at turned later
  have spawned : ∀ {machine : Machine}, machine.shared = after.shared → machine.adopt = machine :=
    fun same => adopt_of_spawned (same ▸ later.spawned)
  simp only [turnAt, ofSession, List.getElem?_toArray, List.getElem?_cons_zero, turned,
    later.running, ExecState.isTerminal]
  rw [if_neg Bool.false_ne_true, spawned rfl]
  unfold collectIfRequested
  by_cases requested : after.shared.heap.requested = true
  · rw [if_pos requested, if_pos requested]
    simp [roots, Session.collected]
  · rw [if_neg requested, if_neg requested]
    simp

theorem surface_logEnd (session : Session) :
    session.logEnd.shared.surface = session.shared.surface := by
  unfold Session.logEnd
  split
  · exact Shared.surface_log session.shared _
  · rfl

theorem surface_collectIfRequested (machine : Machine) :
    machine.collectIfRequested.shared.surface = machine.shared.surface := by
  unfold collectIfRequested
  split
  · exact Shared.surface_collect _ _
  · rfl

theorem turnAt_ended (calm : session.Calm)
    (terminal : (session.steps Session.turnLength).executor.state.isTerminal = true)
    (promise : (session.steps Session.turnLength).executor.promise = none)
    (spawned : (session.steps Session.turnLength).shared.spawned = []) :
    ((ofSession session).turnAt 0).executors = #[] ∧
      ((ofSession session).turnAt 0).entryState =
        some (session.steps Session.turnLength).executor.state ∧
      ((ofSession session).turnAt 0).shared.surface =
        (session.steps Session.turnLength).shared.surface := by
  have turned : Session.turn ⟨session.executor, session.shared⟩ =
      (session.steps Session.turnLength).logEnd := by
    simp [Session.turn, calm.running, calm.aborting, ExecState.isTerminal]
  generalize session.steps Session.turnLength = after at turned terminal promise spawned
  have same : after.logEnd.executor = after.executor := by
    unfold Session.logEnd
    split <;> rfl
  have surface := surface_logEnd after
  have none : after.logEnd.shared.spawned = [] := by
    rw [← spawned]
    exact congrArg Surface.spawned surface
  simp only [turnAt, ofSession, List.getElem?_toArray, List.getElem?_cons_zero, turned, same,
    terminal, if_true, retire, promise]
  rw [adopt_of_spawned (by exact none)]
  refine ⟨?_, ?_, (surface_collectIfRequested _).trans surface⟩
  · unfold collectIfRequested
    split <;> simp
  · unfold collectIfRequested
    split <;> rfl

/-- A turn of a session on its way makes at least one move, and stops at the end of the run. -/
theorem turnAt_path {count : Nat} {after : Session} (calm : session.Calm)
    (path : Session.Path count session after)
    (bounded : after.executor.state ≠ .running ∨ Session.turnLength ≤ count) :
    (∃ middle rest, rest < count ∧ count ≤ rest + 4097 ∧ Session.Path rest middle after ∧
        middle.executor.state = .running ∧ (ofSession session).turnAt 0 = ofSession middle) ∨
      count ≤ 4096 ∧ session.steps Session.turnLength = after := by
  obtain ⟨made, rest, total, few, before, tail, moves⟩ := Session.steps_path path bounded
  change made ≤ 4096 at few
  cases rest with
  | zero => exact Or.inr ⟨by omega, tail⟩
  | succ rest =>
    left
    have turned := turnAt_calm calm tail.1
    cases requested : (session.steps Session.turnLength).shared.heap.requested with
    | true =>
      have moved : (session.steps Session.turnLength).next =
          (session.steps Session.turnLength).collected := by
        simp [Session.next, requested]
      have onward := tail.2
      rw [moved] at onward
      rw [requested, if_pos rfl] at turned
      exact ⟨(session.steps Session.turnLength).collected, rest, by omega, by omega, onward,
        tail.1.running, turned⟩
    | false =>
      rw [requested, if_neg Bool.false_ne_true] at turned
      have moving : made ≠ 0 := by
        intro still
        rcases moves still with none | none | asked
        · cases none
        · cases none
        · rw [still] at before
          have same : session = session.steps Session.turnLength := before
          rw [same, requested] at asked
          cases asked
      exact ⟨_, rest + 1, by omega, by omega, tail, tail.1.running, turned⟩

theorem runEntryFrom_ends {count : Nat} {after : Session} (path : Session.Path count session after)
    (running : session.executor.state = .running)
    (terminal : after.executor.state.isTerminal = true) (promise : after.executor.promise = none)
    (spawned : after.shared.spawned = []) {fuel : Nat} (enough : 2 * count + 1 ≤ fuel) :
    (runEntryFrom fuel 0 0 (ofSession session)).entryState = some after.executor.state ∧
      (runEntryFrom fuel 0 0 (ofSession session)).shared.surface = after.shared.surface := by
  have ended : after.executor.state ≠ .running := by
    intro state
    rw [state] at terminal
    cases terminal
  induction count using Nat.strongRecOn generalizing session fuel with
  | ind count ih =>
    obtain ⟨fuel, rfl⟩ : ∃ less, fuel = less + 1 := ⟨fuel - 1, by omega⟩
    have calm : session.Calm := by
      cases count with
      | zero =>
        have same : session = after := path
        exact absurd (same ▸ running) ended
      | succ count => exact path.1
    have waits : (ofSession session).isWaiting 0 = false := by
      simp [isWaiting, ofSession, running]
    rcases turnAt_path calm path (Or.inl ended) with
      ⟨middle, rest, fewer, _, tail, middleRunning, turned⟩ | ⟨_, done⟩
    · have moved : runEntryFrom (fuel + 1) 0 0 (ofSession session) =
          runEntryFrom fuel 1 0 (ofSession middle) := by
        simp only [runEntryFrom, waits, turned]
        simp [ofSession]
      obtain ⟨fuel, rfl⟩ : ∃ less, fuel = less + 1 := ⟨fuel - 1, by omega⟩
      have back : runEntryFrom (fuel + 1) 1 0 (ofSession middle) =
          runEntryFrom fuel 0 0 (ofSession middle) := by
        simp [runEntryFrom, ofSession]
      rw [moved, back]
      exact ih rest fewer tail middleRunning (by omega)
    · obtain ⟨alone, state, surface⟩ := turnAt_ended calm (by rw [done]; exact terminal)
        (by rw [done]; exact promise) (by rw [done]; exact spawned)
      rw [done] at state surface
      have finishes : runEntryFrom (fuel + 1) 0 0 (ofSession session) =
          runEntryFrom fuel 0 0 ((ofSession session).turnAt 0) := by
        simp only [runEntryFrom, waits, alone]
        simp [ofSession]
      have stays : runEntryFrom fuel 0 0 ((ofSession session).turnAt 0) =
          (ofSession session).turnAt 0 := by
        cases fuel with
        | zero => rfl
        | succ fuel => simp [runEntryFrom, state]
      rw [finishes, stays]
      exact ⟨state, surface⟩

/-- A run that goes on is not over after any number of turns it is long enough for. -/
theorem runEntryFrom_lasts {fuel count position : Nat} {after : Session}
    (path : Session.Path count session after) (long : 4097 * fuel ≤ count) (first : position ≤ 1) :
    (runEntryFrom fuel position 0 (ofSession session)).entryState = none := by
  induction fuel generalizing session count position with
  | zero => rfl
  | succ fuel ih =>
    obtain ⟨calm, _⟩ : session.Calm ∧ 0 < count := by
      cases count with
      | zero => omega
      | succ count => exact ⟨path.1, Nat.succ_pos count⟩
    have waits : (ofSession session).isWaiting 0 = false := by
      simp [isWaiting, ofSession, calm.running]
    rcases Nat.le_one_iff_eq_zero_or_eq_one.1 first with rfl | rfl
    · rcases turnAt_path calm path (Or.inr (show 4096 ≤ count by omega)) with
        ⟨middle, rest, _, more, tail, _, turned⟩ | ⟨few, _⟩
      · have moved : runEntryFrom (fuel + 1) 0 0 (ofSession session) =
            runEntryFrom fuel 1 0 (ofSession middle) := by
          simp only [runEntryFrom, waits, turned]
          simp [ofSession]
        rw [moved]
        exact ih tail (by omega) (Nat.le_refl 1)
      · omega
    · have back : runEntryFrom (fuel + 1) 1 0 (ofSession session) =
          runEntryFrom fuel 0 0 (ofSession session) := by
        simp [runEntryFrom, ofSession]
      rw [back]
      exact ih path (by omega) (Nat.zero_le 1)

/-! ## Entry points -/

/-- The session in which an entry point starts. -/
def entered (machine : Machine) (ip : UInt32) : Session where
  executor := { Executor.start machine.shared.settings ip with id := machine.shared.started + 1 }
  shared := { machine.shared.report .entryBegan with started := machine.shared.started + 1 }

theorem surface_entered (machine : Machine) (ip : UInt32) :
    (machine.entered ip).shared.surface = machine.shared.surface := rfl

variable {machine : Machine} {ip : UInt32} {count : Nat} {after : Session}

theorem runEntry_eq (alone : machine.executors = #[]) (turns index : Nat) :
    machine.runEntry turns index ip =
      let machine := runEntryFrom turns 0 0 (ofSession (machine.entered ip))
      let state := machine.entryState.getD .running
      (state, { machine with shared := machine.shared.report (.entryEnded index state) }) := by
  unfold runEntry ofSession entered
  rw [alone]
  rfl

theorem runEntry_ends (alone : machine.executors = #[])
    (path : Session.Path count (machine.entered ip) after)
    (terminal : after.executor.state.isTerminal = true) (promise : after.executor.promise = none)
    (spawned : after.shared.spawned = []) {turns : Nat} (enough : 2 * count + 1 ≤ turns)
    (index : Nat) :
    (machine.runEntry turns index ip).1 = after.executor.state ∧
      (machine.runEntry turns index ip).2.shared.surface = after.shared.surface := by
  obtain ⟨state, surface⟩ := runEntryFrom_ends path rfl terminal promise spawned enough
  rw [runEntry_eq alone]
  exact ⟨by simp only [state, Option.getD_some], surface⟩

theorem runEntry_lasts (alone : machine.executors = #[])
    (path : Session.Path count (machine.entered ip) after) {turns : Nat}
    (long : 4097 * turns ≤ count) (index : Nat) :
    (machine.runEntry turns index ip).1 = .running := by
  have none := runEntryFrom_lasts path long (Nat.zero_le 1)
  rw [runEntry_eq alone]
  simp only [none, Option.getD_none]

end Machine

end WordMachine
