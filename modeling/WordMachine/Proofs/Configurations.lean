import WordMachine.Proofs.Representation
import WordMachine.Proofs.Running

/-!
What a session holds in terms of values: operands, constants, calls in progress and effects. An
instruction is judged by the configurations it leads from and to; a collection may come before it
and keeps the configuration. An evaluation agrees with a session if the moves that follow do what
the evaluation does.
-/

namespace WordMachine.Evaluation

/-! ## Configurations -/

/-- What a session holds. Operands are listed from the top, constants from the outermost frame. -/
structure Config where
  operands : List Typed
  constants : List (Option Typed)
  base : Nat
  calls : Array Frame
  effects : Effects

/-- Whether a word stands for the value of a constant, if it has one. -/
def RepresentsSlot (compilation : Compilation) (lazies : Lazies) (heap : Heap)
    (content : Option Typed) (word : Word) : Prop :=
  ∀ item, content = some item → Represents compilation lazies heap item.1 item.2 word

/-- What is seen of a program with given effects that runs alone. -/
def Compilation.surface (compilation : Compilation) (effects : Effects) : Surface where
  assembly := compilation.image.assembly
  aborting := false
  spawned := []
  written := some (effects.output, effects.errors)

/-- Whether a session is about to carry out the instruction at a position and holds what a
configuration says. -/
structure Shows (compilation : Compilation) (lazies : Lazies) (position : Nat) (config : Config)
    (session : Session) : Prop where
  surface : session.shared.surface = compilation.surface config.effects
  running : session.executor.state = .running
  wait : session.executor.wait = none
  promise : session.executor.promise = none
  sound : session.shared.heap.Sound
  room : session.shared.heap.slots.size + 1 < 2 ^ 32
  ip : session.executor.ip.toNat = position
  base : session.executor.consts.base = config.base
  calls : session.executor.calls.frames = config.calls
  operands : RepresentsAll compilation lazies session.shared.heap config.operands
    session.executor.eval.items.toList.reverse
  constants : List.Forall₂ (RepresentsSlot compilation lazies session.shared.heap)
    config.constants session.executor.consts.slots.toList
  cells : RepresentsCells compilation lazies session.shared.heap config.effects.cells

def Depicts (compilation : Compilation) (position : Nat) (config : Config) (session : Session) :
    Prop :=
  ∃ lazies, Shows compilation lazies position config session

/-- Whether a session has ended in a state and has written what some effects say. -/
structure Ended (compilation : Compilation) (state : ExecState) (effects : Effects)
    (session : Session) : Prop where
  surface : session.shared.surface = compilation.surface effects
  state : session.executor.state = state
  wait : session.executor.wait = none
  promise : session.executor.promise = none

/-- Whether a session has run out of the machine within an instruction. -/
structure Spent (session : Session) : Prop where
  out : session.RunsOut
  wait : session.executor.wait = none

section

variable {compilation : Compilation} {lazies later : Lazies} {position : Nat} {config : Config}
variable {session : Session}

theorem Shows.calm (shows : Shows compilation lazies position config session) : session.Calm where
  running := shows.running
  promise := shows.promise
  aborting := congrArg Surface.aborting shows.surface
  spawned := congrArg Surface.spawned shows.surface

theorem Shows.assembly (shows : Shows compilation lazies position config session) :
    session.shared.assembly = compilation.image.assembly :=
  congrArg Surface.assembly shows.surface

theorem Shows.withHeap {Held : Word → Prop} {heap : Heap} {cells : Array Cell}
    (shows : Shows compilation lazies position config session)
    (keeps : ∀ word, Held word → Keeps lazies later session.shared.heap heap word)
    (closed : ∀ word payload next, Held word → session.shared.heap.Contains word payload →
      payload.Refers next → Held next)
    (held : ∀ word ∈ session.executor.roots, Held word) (sound : heap.Sound)
    (room : heap.slots.size + 1 < 2 ^ 32)
    (represents : RepresentsCells compilation later heap cells) :
    Shows compilation later position
      { config with effects := { config.effects with cells } }
      { session with shared := { session.shared with heap } } where
  surface := by
    rw [Shared.surface_withHeap, shows.surface]
    rfl
  running := shows.running
  wait := shows.wait
  promise := shows.promise
  sound := sound
  room := room
  ip := shows.ip
  base := shows.base
  calls := shows.calls
  operands := by
    refine representsAll_keep keeps closed ?_ shows.operands
    intro word member
    exact held word (by simp [Executor.roots, List.mem_reverse.1 member])
  constants := by
    have holds := shows.constants
    have kept : ∀ word ∈ session.executor.consts.slots.toList, Held word := by
      intro word member
      exact held word (by simp [Executor.roots, member])
    change List.Forall₂ _ config.constants session.executor.consts.slots.toList
    generalize session.executor.consts.slots.toList = words at holds kept
    generalize config.constants = contents at holds
    induction holds with
    | nil => exact .nil
    | cons first _ ih =>
      simp only [List.mem_cons, forall_eq_or_imp] at kept
      refine .cons ?_ (ih kept.2)
      intro item known
      exact represents_keep keeps closed kept.1 (first item known)
  cells := represents

/-- Nothing a session holds is lost while objects are added. -/
theorem Shows.grow {heap : Heap} (shows : Shows compilation lazies position config session)
    (contains : ∀ {word payload}, session.shared.heap.Contains word payload →
      heap.Contains word payload) (sound : heap.Sound) (room : heap.slots.size + 1 < 2 ^ 32) :
    Shows compilation lazies position config
      { session with shared := { session.shared with heap } } :=
  shows.withHeap (fun word (_ : True) => keeps_of_contains contains (fun known => known) word)
    (fun _ _ _ _ _ _ => trivial) (fun _ _ => trivial) sound room (shows.cells.grow contains)

/-- What is not seen of the shared state may change. -/
theorem Shows.withShared {shared : Shared}
    (shows : Shows compilation lazies position config session)
    (surface : shared.surface = session.shared.surface) (heap : shared.heap = session.shared.heap) :
    Shows compilation lazies position config { session with shared } where
  surface := surface.trans shows.surface
  running := shows.running
  wait := shows.wait
  promise := shows.promise
  sound := heap ▸ shows.sound
  room := by
    change shared.heap.slots.size + 1 < 2 ^ 32
    rw [heap]
    exact shows.room
  ip := shows.ip
  base := shows.base
  calls := shows.calls
  operands := heap ▸ shows.operands
  constants := heap ▸ shows.constants
  cells := heap ▸ shows.cells

/-! ## Moves -/

theorem Shows.collected (shows : Shows compilation lazies position config session) :
    Depicts compilation position config session.collected ∨ session.collected.RunsOut := by
  by_cases full : 2 ^ 32 ≤ session.collected.shared.heap.slots.size + 1
  · exact Or.inr (Or.inr (Or.inr full))
  left
  have heap : session.collected.shared.heap =
      ({ session.shared.heap with requested := false }.collect session.executor.roots).1 :=
    Shared.collect_heap _ _
  have surface : session.collected.shared.surface = session.shared.surface :=
    Shared.surface_collect _ _
  rw [heap] at full
  have calmHeap := shows.sound.pace session.shared.heap.left false
  have collected := (Heap.sweep_mark_collected calmHeap.wellFormed calmHeap.accounted
    session.executor.roots).pace
      ({ session.shared.heap with requested := false }.mark
        session.executor.roots).sweep.1.interval
  have same : ∀ {word payload}, session.shared.heap.Contains word payload →
      ({ session.shared.heap with requested := false } : Heap).Contains word payload :=
    fun contains => contains
  have before := shows.grow same calmHeap shows.room
  have after := before.withHeap (fun _ reached => keeps_collected collected reached)
    reached_closed (fun _ member => .root member) (calmHeap.collect session.executor.roots)
    (Nat.lt_of_not_le full) (before.cells.collected collected)
  exact ⟨_, after.withShared surface heap⟩

/-- Whether a session goes on with a move that leads to a goal. -/
def Advances (session : Session) (goal : Session → Prop) : Prop :=
  session.Calm ∧ session.next.Leads goal

theorem Advances.leads {goal : Session → Prop} (advances : Advances session goal) :
    session.Leads goal :=
  .next advances.1 advances.2

theorem Advances.lasts {between : Session → Prop} {count : Nat}
    (advances : Advances session between) (rest : ∀ after, between after → after.Lasts count) :
    session.Lasts (count + 1) :=
  .next advances.1 (advances.2.lasts rest)

theorem step_eq_ok {after : Session} (issued : Exec.issue session = .ok () after)
    (settled : after.executor.wait = none) : Exec.step session = .ok () after := by
  rw [← issued]
  refine Exec.step_eq_issue ?_
  rw [issued]
  exact settled

theorem Shows.issue {instruction : Instruction}
    (shows : Shows compilation lazies position config session)
    (here : instruction.At compilation.image position) :
    ∃ fetched, Shows compilation lazies (position + instruction.op.size) config fetched ∧
      Exec.issue session =
        Exec.perform compilation.image.assembly instruction.op (position + 1) fetched := by
  let moved : Session :=
    { session with
      executor :=
        { session.executor with
          current := session.executor.ip
          ip := session.executor.ip + UInt32.ofNat instruction.op.size } }
  have next : Shows compilation lazies (position + instruction.op.size) config moved :=
    { shows with ip := here.next_ip compilation.layout.small shows.ip }
  exact ⟨_, next.withShared (Shared.surface_log session.shared fun _ =>
    Exec.instructionLine session.executor.id session.shared.assembly.code
      session.executor.ip.toNat instruction.op) (Shared.log_heap _ _),
    here.issue shows.assembly shows.ip⟩

theorem Depicts.advances {instruction : Instruction} {goal : Session → Prop}
    (depicts : Depicts compilation position config session)
    (here : instruction.At compilation.image position) (performs : ∀ lazies fetched,
      Shows compilation lazies (position + instruction.op.size) config fetched →
        ∃ after, Exec.perform compilation.image.assembly instruction.op (position + 1) fetched =
          .ok () after ∧ (goal after ∨ Spent after))
    (settled : ∀ after, goal after → after.executor.wait = none) : Advances session goal := by
  have moves : ∀ {session : Session}, Depicts compilation position config session →
      session.shared.heap.requested = false → Advances session goal := by
    rintro session ⟨lazies, shows⟩ unasked
    obtain ⟨fetched, next, issued⟩ := shows.issue here
    obtain ⟨after, done, reached⟩ := performs lazies fetched next
    have quiet : after.executor.wait = none := reached.elim (settled after) Spent.wait
    have stepped := step_eq_ok (issued.trans done) quiet
    have moved : session.next = after := by simp [Session.next, unasked, stepped]
    refine ⟨shows.calm, ?_⟩
    rw [moved]
    exact reached.elim .here fun spent => .out spent.out
  cases asked : session.shared.heap.requested with
  | false => exact moves depicts asked
  | true =>
    obtain ⟨lazies, shows⟩ := depicts
    have moved : session.next = session.collected := by simp [Session.next, asked]
    refine ⟨shows.calm, ?_⟩
    rw [moved]
    rcases shows.collected with collected | out
    · exact (moves collected (Session.collected_requested shows.sound)).leads
    · exact .out out

/-! ## Agreement -/

/-- Whether the moves that follow do what an evaluation does: they lead to a goal for its value or
end as it ends, and they go on for as long as it has fuel. -/
def Agrees {state value : Type} (compilation : Compilation) (view : state → Effects) (fuel : Nat)
    (outcome : EStateM.Result Stop state value) (goal : value → state → Session → Prop)
    (session : Session) : Prop :=
  match outcome with
  | .ok value state => session.Leads (goal value state)
  | .error (.ended ending) state => session.Leads (Ended compilation ending (view state))
  | .error (.unset _) _ => True
  | .error .illTyped _ => session.Leads fun _ => False
  | .error .outOfFuel _ => session.Lasts fuel

section

variable {state value result : Type} {view : state → Effects} {fuel : Nat}
variable {outcome : EStateM.Result Stop state value} {goal : value → state → Session → Prop}

theorem Agrees.of_leads {between : Session → Prop} (before : session.Leads between)
    (rest : ∀ after, between after → Agrees compilation view fuel outcome goal after) :
    Agrees compilation view fuel outcome goal session := by
  match outcome, rest with
  | .ok _ _, rest => exact before.trans rest
  | .error (.ended _) _, rest => exact before.trans rest
  | .error (.unset _) _, _ => exact trivial
  | .error .illTyped _, rest => exact before.trans rest
  | .error .outOfFuel _, rest => exact before.lasts rest

theorem Agrees.of_advances {between : Session → Prop} (before : Advances session between)
    (rest : ∀ after, between after → Agrees compilation view fuel outcome goal after) :
    Agrees compilation view (fuel + 1) outcome goal session := by
  match outcome, rest with
  | .ok _ _, rest => exact before.leads.trans rest
  | .error (.ended _) _, rest => exact before.leads.trans rest
  | .error (.unset _) _, _ => exact trivial
  | .error .illTyped _, rest => exact before.leads.trans rest
  | .error .outOfFuel _, rest => exact before.lasts rest

theorem Agrees.bind {first : EStateM Stop state value} {next : value → EStateM Stop state result}
    {start : state} {goal : result → state → Session → Prop}
    {between : value → state → Session → Prop}
    (before : Agrees compilation view fuel (first start) between session)
    (rest : ∀ given middle after, between given middle after →
      Agrees compilation view fuel (next given middle) goal after) :
    Agrees compilation view fuel ((first >>= next) start) goal session := by
  change Agrees compilation view fuel (EStateM.bind first next start) goal session
  unfold EStateM.bind
  match first start, before with
  | .ok given middle, before => exact .of_leads before (rest given middle)
  | .error (.ended _) _, before => exact before
  | .error (.unset _) _, _ => exact trivial
  | .error .illTyped _, before => exact before
  | .error .outOfFuel _, before => exact before

end

theorem Agrees.perform {value : Type} {fuel : Nat} {action : Action value} {start : State}
    {goal : value → State → Session → Prop}
    (agrees : Agrees compilation id fuel (action start.effects)
      (fun value effects => goal value { start with effects }) session) :
    Agrees compilation State.effects fuel (perform action start) goal session := by
  unfold Evaluation.perform
  match action start.effects, agrees with
  | .ok value effects, agrees => exact agrees
  | .error (.ended _) _, agrees => exact agrees
  | .error (.unset _) _, _ => exact trivial
  | .error .illTyped _, agrees => exact agrees
  | .error .outOfFuel _, agrees => exact agrees

end

end WordMachine.Evaluation
