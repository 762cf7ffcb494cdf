import WordMachine.Machine.Ensemble
import WordMachine.Proofs.ContainedSteps
import WordMachine.Proofs.InstructionEffects

/-!
The turns of an ensemble, sorted by what they touch: a strand works on its session, changes only
itself, or joins or leaves the others; a collection frees objects; someone closes a stream. From
this every invariant of an ensemble is proved.
-/

namespace WordMachine

namespace Ensemble

/-- What a strand carries out in a turn, with what it does next and the events that this is. -/
inductive Works (ensemble : Ensemble) (strand : Strand) :
    Exec Unit → Strand.Phase → (Session → List Event) → Prop
  | issue :
      strand.phase = .free →
      strand.executor.state = .running →
      (ensemble.session strand).joins? = none →
      Works ensemble strand Exec.issue .free fun _ => []
  | ask {op : Opcode} :
      strand.phase = .free →
      strand.executor.state = .running →
      (ensemble.session strand).joins? = some op →
      Works ensemble strand (Exec.asking op) (ensemble.asked strand op) fun _ => []
  | settle :
      strand.phase = .free →
      strand.executor.state = .paused →
      strand.executor.wait.map Wait.isJoining = some false →
      Works ensemble strand Exec.settle .free fun _ => []
  | join {joining : Joining} :
      strand.phase = .joining joining →
      joining.limit = none →
      Works ensemble strand (Exec.replace (ensemble.outcomeOf joining)) .free fun session =>
        [.joined joining (ensemble.outcomeOf joining) strand.executor.eval.items
          session.executor.eval.items session.executor.state]
  | tell {joining : Joining} :
      strand.phase = .joining joining →
      joining.limit ≠ none →
      Works ensemble strand (Exec.answer (ensemble.done.contains joining.child)) .free
        fun session =>
          [.told joining (ensemble.done.contains joining.child) strand.executor.eval.items
            session.executor.eval.items]

/-- How a strand changes in a turn in which it touches nothing else. -/
inductive Marks (ensemble : Ensemble) (strand : Strand) : Strand → Prop
  | stop :
      strand.phase = .free →
      strand.executor.state.isTerminal = false →
      Marks ensemble strand strand.stopped
  | abort : Marks ensemble strand { strand with aborted := true }
  | cancel : Marks ensemble strand { strand with cancelled := true }
  | look {joining : Joining} :
      strand.phase = .looking joining →
      Marks ensemble strand { strand with phase := ensemble.looked joining }
  | pause {joining : Joining} (wait : Wait) :
      strand.phase = .pausing joining →
      Marks ensemble strand (strand.paused joining wait)
  | wake {joining : Joining} :
      strand.phase = .waiting joining →
      ensemble.wakes strand joining = true →
      Marks ensemble strand { strand with phase := .woken joining }
  | give {joining : Joining} :
      strand.phase = .woken joining →
      (strand.aborted || strand.cancelled) = true →
      Marks ensemble strand strand.stopped
  | resume {joining : Joining} :
      strand.phase = .woken joining →
      (strand.aborted || strand.cancelled) = false →
      Marks ensemble strand (strand.resumed joining)

/-- What a turn comes to. -/
inductive Moves (ensemble : Ensemble) : Ensemble → Prop
  | enter {ip : UInt32} :
      ensemble.finals = none →
      ip ∈ ensemble.shared.assembly.entries →
      Moves ensemble (ensemble.enter ip)
  | work {position : Nat} {strand : Strand} {computation : Exec Unit} {phase : Strand.Phase}
      {events : Session → List Event} :
      ensemble.strands[position]? = some strand →
      ensemble.Works strand computation phase events →
      Moves ensemble (ensemble.perform position { strand with phase } computation events)
  | mark {position : Nat} {strand marked : Strand} :
      ensemble.strands[position]? = some strand →
      ensemble.Marks strand marked →
      Moves ensemble (ensemble.turnTo position marked)
  | complete {position : Nat} {strand : Strand} {promise : Word} :
      ensemble.strands[position]? = some strand →
      strand.phase = .free →
      strand.executor.state.isTerminal = true →
      strand.executor.promise = some promise →
      Moves ensemble (ensemble.complete position strand promise)
  | close {position : Nat} {strand : Strand} :
      ensemble.strands[position]? = some strand →
      strand.phase = .closing →
      Moves ensemble (ensemble.close position strand)
  | leave {position : Nat} {strand : Strand} :
      ensemble.strands[position]? = some strand →
      strand.phase = .leaving ∨ strand.phase = .free ∧ strand.executor.promise = none →
      Moves ensemble (ensemble.leave position strand)
  | request (requested : Bool) :
      Moves ensemble
        { ensemble with
          shared := { ensemble.shared with heap := { ensemble.shared.heap with requested } } }
  | outside (around : Shared) :
      Moves ensemble { ensemble with shared := ensemble.shared.within around }
  | sweep :
      ensemble.strands.all Strand.rests = true →
      Moves ensemble ensemble.sweep
  | claim {position : Nat} {stream : Stream} :
      ensemble.swept[position]? = some stream →
      Moves ensemble (ensemble.claim position stream)
  | discharge {position : Nat} {duty : Duty} :
      ensemble.duties[position]? = some duty →
      Moves ensemble (ensemble.discharge position duty)
  | finish :
      ensemble.strands = [] →
      ensemble.finals = none →
      Moves ensemble { ensemble with finals := some ensemble.shared.heap.streams }
  | visit {word : Word} {rest : List Word} :
      ensemble.finals = some (word :: rest) →
      Moves ensemble (ensemble.visit word rest)

variable {ensemble after : Ensemble}

theorem moves_of_act {position : Nat} {strand : Strand} {act : Strand.Act}
    (found : ensemble.strands[position]? = some strand)
    (acts : ensemble.act position strand act = some after) : ensemble.Moves after := by
  cases act with
  | issue =>
    obtain ⟨⟨free, running, other⟩, same⟩ := Option.ite_none_right_eq_some.1 acts
    cases same
    have moves := Moves.work found (.issue free running other)
    rw [← free] at moves
    exact moves
  | ask =>
    dsimp only [Ensemble.act] at acts
    split at acts
    · next op joins =>
      obtain ⟨⟨free, running⟩, same⟩ := Option.ite_none_right_eq_some.1 acts
      cases same
      exact .work found (.ask free running joins)
    · cases acts
  | settle =>
    obtain ⟨⟨free, paused, other⟩, same⟩ := Option.ite_none_right_eq_some.1 acts
    cases same
    have moves := Moves.work found (.settle free paused other)
    rw [← free] at moves
    exact moves
  | stop =>
    obtain ⟨⟨free, told⟩, same⟩ := Option.ite_none_right_eq_some.1 acts
    cases same
    refine .mark found (.stop free ?_)
    rcases told with ⟨running, _⟩ | ⟨paused, _⟩
    · rw [running]
      rfl
    · rw [paused]
      rfl
  | abort =>
    cases acts
    exact .mark found .abort
  | cancel =>
    cases acts
    exact .mark found .cancel
  | look =>
    dsimp only [Ensemble.act] at acts
    split at acts
    · next joining looking =>
      cases acts
      exact .mark found (.look looking)
    · cases acts
  | pause =>
    dsimp only [Ensemble.act] at acts
    split at acts
    · next joining pausing =>
      cases acts
      exact .mark found (.pause _ pausing)
    · cases acts
  | wake =>
    dsimp only [Ensemble.act] at acts
    split at acts
    · next joining waiting =>
      obtain ⟨ends, same⟩ := Option.ite_none_right_eq_some.1 acts
      cases same
      exact .mark found (.wake waiting ends)
    · cases acts
  | resume =>
    dsimp only [Ensemble.act] at acts
    split at acts
    · next joining woken =>
      cases acts
      by_cases told : (strand.aborted || strand.cancelled) = true
      · rw [if_pos told]
        exact .mark found (.give woken told)
      · rw [if_neg told]
        exact .mark found (.resume woken (Bool.eq_false_iff.2 told))
    · cases acts
  | join =>
    dsimp only [Ensemble.act] at acts
    split at acts
    · next joining ready =>
      cases acts
      cases limited : joining.limit with
      | none => exact .work found (.join ready limited)
      | some limit =>
        refine .work found (.tell ready ?_)
        rw [limited]
        exact Option.some_ne_none limit
    · cases acts
  | complete =>
    dsimp only [Ensemble.act] at acts
    split at acts
    · next promise promised =>
      obtain ⟨⟨free, ended⟩, same⟩ := Option.ite_none_right_eq_some.1 acts
      cases same
      exact .complete found free ended promised
    · cases acts
  | close =>
    obtain ⟨closing, same⟩ := Option.ite_none_right_eq_some.1 acts
    cases same
    exact .close found closing
  | leave =>
    obtain ⟨ready, same⟩ := Option.ite_none_right_eq_some.1 acts
    cases same
    exact .leave found (ready.imp_right fun ended => ⟨ended.1, ended.2.2⟩)

theorem moves_of_step {turn : Turn} (steps : ensemble.step turn = some after) :
    ensemble.Moves after := by
  cases turn with
  | enter ip =>
    obtain ⟨⟨going, entry⟩, same⟩ := Option.ite_none_right_eq_some.1 steps
    cases same
    exact .enter going entry
  | strand position act =>
    dsimp only [step] at steps
    split at steps
    · next strand found => exact moves_of_act found steps
    · cases steps
  | request requested =>
    cases steps
    exact .request requested
  | outside around =>
    cases steps
    exact .outside around
  | sweep =>
    obtain ⟨rest, same⟩ := Option.ite_none_right_eq_some.1 steps
    cases same
    exact .sweep rest
  | claim position =>
    dsimp only [step] at steps
    split at steps
    · next stream found =>
      cases steps
      exact .claim found
    · cases steps
  | discharge position =>
    dsimp only [step] at steps
    split at steps
    · next duty found =>
      cases steps
      exact .discharge found
    · cases steps
  | finish =>
    obtain ⟨⟨empty, going⟩, same⟩ := Option.ite_none_right_eq_some.1 steps
    cases same
    exact .finish empty going
  | visit =>
    dsimp only [step] at steps
    split at steps
    · next word rest ahead =>
      cases steps
      exact .visit ahead
    · cases steps

end Ensemble

/-! ## Waiting for futures -/

/-- An instruction that waits for a future is there to be carried out. -/
theorem Session.joins?_eq_some {session : Session} {op : Opcode}
    (joins : session.joins? = some op) :
    session.instruction? = some (op, op.size) ∧ (op = .await ∨ op = .awaitFor) := by
  unfold joins? at joins
  unfold instruction?
  split at joins
  · next size found =>
    cases joins
    obtain ⟨rfl, _⟩ := Exec.fetch?_eq_some found
    exact ⟨found, Or.inl rfl⟩
  · next size found =>
    cases joins
    obtain ⟨rfl, _⟩ := Exec.fetch?_eq_some found
    exact ⟨found, Or.inr rfl⟩
  · cases joins

namespace Exec

variable {target : UInt32 → Prop} {session : Session} {heap : Heap}

theorem begin_eq (op : Opcode) (session : Session) :
    begin op session =
      .ok () (session.fetched op (session.executor.ip + UInt32.ofNat op.size)) := rfl

theorem runs_asking {op : Opcode} (goesOn : target (session.executor.ip + UInt32.ofNat op.size)) :
    Runs target session (asking op) := by
  have placed : session.Effects target { session with
      executor := { session.executor with
        current := session.executor.ip
        ip := session.executor.ip + UInt32.ofNat op.size } } :=
    (Session.Effects.own session { session.executor with current := session.executor.ip }
      rfl rfl rfl rfl).tail (.jump _ goesOn)
  have begun : Runs target session (begin op) := placed.trans (Session.Effects.log _ _)
  have limited : Within target (limit op) :=
    .ite (fun _ => within_popLong.bind fun _ => within_pure _) fun _ => within_pure _
  refine Runs.bind (begun.bind fun _ middle _ => ?_) fun _ middle _ => within_pure _ middle
  exact (limited.bind fun _ => within_peek.bind fun _ => (within_look _).bind fun _ =>
    within_pure _) middle

theorem within_replace (outcome : Word × ExecState) : Within target (replace outcome) :=
  within_pop.bind fun _ => .ite (fun _ => within_push _) fun _ => within_fail _

theorem within_answer (done : Bool) : Within target (answer done) :=
  within_pop.bind fun _ => within_pushBool _

theorem keeping_asking (op : Opcode) : Keeping (asking op) := by
  have limited : Keeping (limit op) :=
    .ite (indifferent_popLong.keeping.bind fun _ => (indifferent_pure _).keeping)
      (indifferent_pure _).keeping
  refine Keeping.bind (Keeping.bind ?_ fun _ => ?_) fun _ => (indifferent_pure _).keeping
  · intro session
    exact keeps_fetched session op _
  · exact limited.bind fun _ => indifferent_peek.keeping.bind fun _ =>
      (indifferent_look _).keeping.bind fun _ => (indifferent_pure _).keeping

theorem keeping_replace (outcome : Word × ExecState) : Keeping (replace outcome) :=
  indifferent_pop.keeping.bind fun _ =>
    .ite (indifferent_push _).keeping (indifferent_fail _).keeping

theorem keeping_answer (done : Bool) : Keeping (answer done) :=
  indifferent_pop.keeping.bind fun _ => (indifferent_push _).keeping

theorem safe_asking (op : Opcode) : Safe 0 heap (asking op) Anything := by
  have begun : Safe 0 heap (begin op) Anything := by
    refine safe_get.bind fun session _ _ _ => ?_
    refine Safe.bind (safe_modifyControl ?_ ?_ ?_ ?_) fun _ _ _ _ => safe_log _ <;>
      exact fun _ => rfl
  have limited : ∀ {later : Heap}, Safe 0 later (limit op) Anything := by
    refine Safe.ite (fun _ => ?_) fun _ => Safe.pure fun _ _ => trivial
    exact safe_popLong.bind fun _ _ _ _ => Safe.pure fun _ _ => trivial
  have asked : Safe 0 heap (ask op) Anything := by
    refine begun.bind fun _ _ _ _ => limited.bind fun _ _ _ _ => ?_
    refine safe_peek.bind fun word _ _ resolves => ?_
    exact (safe_lookOutcome resolves).bind fun _ _ _ _ => Safe.pure fun _ _ => trivial
  exact asked.bind fun _ _ _ _ => Safe.pure fun _ _ => trivial

theorem safe_replace {outcome : Word × ExecState}
    (resolves : OutcomeResolves heap (some outcome)) : Safe 0 heap (replace outcome) Anything := by
  refine safe_pop.bind fun _ _ more _ => ?_
  refine Safe.ite (fun succeeded => ?_) fun _ => safe_fail _
  obtain ⟨value, state⟩ := outcome
  obtain rfl : state = .success := by simpa using succeeded
  exact safe_push (more.resolves (resolves value rfl))

theorem safe_answer (done : Bool) : Safe 0 heap (answer done) Anything :=
  safe_pop.bind fun _ _ _ _ => safe_pushBool _

end Exec

/-! ## What a strand carries out -/

namespace Ensemble

variable {computation : Exec Unit} {events : Session → List Event} {phase : Strand.Phase}

section Works

variable {ensemble : Ensemble} {strand : Strand} {computation : Exec Unit} {phase : Strand.Phase}
  {events : Session → List Event}

theorem Works.runs {target : UInt32 → Prop} (works : ensemble.Works strand computation phase events)
    (next : ∀ op size, (ensemble.session strand).instruction? = some (op, size) →
      target (strand.executor.ip + UInt32.ofNat size) ∧
        Exec.Permits target ensemble.shared.assembly.code op (strand.executor.ip.toNat + 1)) :
    Exec.Runs target (ensemble.session strand) computation := by
  cases works with
  | issue => exact Exec.runs_issue next
  | ask _ _ joins => exact Exec.runs_asking (next _ _ (Session.joins?_eq_some joins).1).1
  | settle => exact Exec.within_settle _
  | join => exact Exec.within_replace _ _
  | tell => exact Exec.within_answer _ _

theorem Works.effects (works : ensemble.Works strand computation phase events) :
    (ensemble.session strand).Effects (fun _ => True)
      ((ensemble.session strand).carry computation) :=
  .carry (works.runs fun _ _ _ => ⟨trivial, Exec.permits_anywhere _ _ _⟩)

theorem Works.keeping (works : ensemble.Works strand computation phase events) :
    Exec.Keeping computation := by
  cases works with
  | issue => exact Exec.keeping_issue
  | ask => exact Exec.keeping_asking _
  | settle => exact Exec.indifferent_settle.keeping
  | join => exact Exec.keeping_replace _
  | tell => exact Exec.keeping_answer _

/-- The outcome that a waiter reads holds a value that leads to an object. -/
theorem outcomeOf_resolves (closed : ensemble.shared.heap.Closed) (joining : Joining) :
    Exec.OutcomeResolves ensemble.shared.heap (some (ensemble.outcomeOf joining)) := by
  rintro value read
  unfold outcomeOf at read
  split at read
  · next outcome found =>
    cases read
    exact Heap.outcome_resolves closed found
  · cases read

theorem Works.safe (works : ensemble.Works strand computation phase events)
    (closed : ensemble.shared.heap.Closed) :
    Exec.Safe 1 ensemble.shared.heap computation Anything := by
  cases works with
  | issue => exact Exec.safe_issue
  | ask => exact (Exec.safe_asking _).spared
  | settle => exact Exec.safe_settle
  | join => exact (Exec.safe_replace (outcomeOf_resolves closed _)).spared
  | tell => exact (Exec.safe_answer _).spared

end Works

theorem mem_strands_perform {ensemble : Ensemble} {position : Nat} {strand other : Strand}
    (member : other ∈ (ensemble.perform position strand computation events).strands) :
    other ∈ ensemble.strands ∨
      other = { strand with
        executor := ((ensemble.session strand).carry computation).executor } ∨
      ∃ child ∈ ((ensemble.session strand).carry computation).shared.spawned,
        other = { executor := child } := by
  rcases List.mem_append.1 member with before | started
  · rcases List.mem_or_eq_of_mem_set before with same | changed
    · exact Or.inl same
    · exact Or.inr (Or.inl changed)
  · obtain ⟨child, listed, rfl⟩ := List.mem_map.1 started
    exact Or.inr (Or.inr ⟨child, List.mem_reverse.1 listed, rfl⟩)

/-! ## References -/

/-- An ensemble without a reference that leads nowhere. -/
structure Safe (ensemble : Ensemble) : Prop where
  intact : ensemble.shared.heap.Intact
  rooted : ∀ strand ∈ ensemble.strands, strand.executor.Rooted ensemble.shared.heap
  spawned : ensemble.shared.spawned = []
  fault : ∀ report, ensemble.shared.fault = some report → report.fault.Permitted

variable {ensemble after : Ensemble} {position : Nat} {strand : Strand}

theorem Safe.session (safe : ensemble.Safe) (member : strand ∈ ensemble.strands) :
    (ensemble.session strand).Safe where
  intact := safe.intact
  own := safe.rooted strand member
  spawned := by
    intro child joined
    have nobody : child ∈ ensemble.shared.spawned := joined
    rw [safe.spawned] at nobody
    cases nobody
  fault := safe.fault

theorem Safe.evolves (safe : ensemble.Safe) (room : ensemble.hasRoom = true)
    (found : ensemble.strands[position]? = some strand)
    (works : ensemble.Works strand computation phase events) :
    (ensemble.session strand).Evolves 1 ((ensemble.session strand).carry computation) := by
  have member := List.mem_of_getElem? found
  have small := of_decide_eq_true room
  refine Exec.Safe.carry (works.safe safe.intact.closed) (safe.session member) ?_
  change ensemble.shared.heap.slots.size + 1 < 2 ^ 32
  omega

theorem Safe.roomAfter (safe : ensemble.Safe) (room : ensemble.hasRoom = true)
    (found : ensemble.strands[position]? = some strand)
    (works : ensemble.Works strand computation phase events) :
    ((ensemble.session strand).carry computation).shared.heap.slots.size + 1 < 2 ^ 32 := by
  have small := of_decide_eq_true room
  have size : _ ≤ ensemble.shared.heap.slots.size + 1 := (safe.evolves room found works).size
  omega

theorem Safe.work (safe : ensemble.Safe) (room : ensemble.hasRoom = true)
    (found : ensemble.strands[position]? = some strand)
    (works : ensemble.Works strand computation phase events) :
    (ensemble.perform position { strand with phase } computation events).Safe := by
  have evolved := safe.evolves room found works
  refine ⟨evolved.safe.intact, fun other member => ?_, rfl, evolved.safe.fault⟩
  rcases mem_strands_perform member with before | rfl | ⟨child, started, rfl⟩
  · exact (safe.rooted other before).mono evolved.grown
  · exact evolved.safe.own
  · exact evolved.safe.spawned child started

/-- A turn in which a strand changes only itself leaves its words alone. -/
theorem Marks.executor {marked : Strand} (marks : ensemble.Marks strand marked) :
    ∃ state wait, marked.executor = { strand.executor with state, wait } := by
  cases marks <;> exact ⟨_, _, rfl⟩

theorem Safe.mark (safe : ensemble.Safe) {marked : Strand}
    (found : ensemble.strands[position]? = some strand) (marks : ensemble.Marks strand marked) :
    (ensemble.turnTo position marked).Safe := by
  refine ⟨safe.intact, fun other member => ?_, safe.spawned, safe.fault⟩
  rcases List.mem_or_eq_of_mem_set member with before | rfl
  · exact safe.rooted other before
  · obtain ⟨state, wait, same⟩ := marks.executor
    have rooted := safe.rooted strand (List.mem_of_getElem? found)
    rw [same]
    exact ⟨rooted.eval, rooted.consts, rooted.promise⟩

theorem Safe.complete (safe : ensemble.Safe) {promise : Word}
    (found : ensemble.strands[position]? = some strand)
    (promised : strand.executor.promise = some promise) :
    (ensemble.complete position strand promise).Safe := by
  have rooted := safe.rooted strand (List.mem_of_getElem? found)
  obtain ⟨⟨_, object, leads⟩, resolves⟩ := rooted.promise promise promised
  have refers : ∀ next,
      (Payload.future (some (strand.executor.result, strand.executor.state))).Refers next →
      ensemble.shared.heap.Resolves next := by
    intro next held
    generalize strand.executor.state = state at held
    cases held
    exact resolves
  obtain ⟨now, grown⟩ := safe.intact.setPayload leads refers nofun
  refine ⟨now, fun other member => ?_, safe.spawned, safe.fault⟩
  rcases List.mem_or_eq_of_mem_set member with before | rfl
  · exact (safe.rooted other before).mono grown
  · exact rooted.mono grown

theorem sweep_keeps {β : Type} {view : Shared → β}
    (logged : ∀ shared line, view (Shared.log shared line) = view shared) (ensemble : Ensemble) :
    view ensemble.sweep.shared =
      view { ensemble.shared with heap := (ensemble.shared.heap.collect ensemble.roots).1 } :=
  Shared.foldl_keeps (fun shared _ => logged shared _) _ _

theorem sweep_heap (ensemble : Ensemble) :
    ensemble.sweep.shared.heap = (ensemble.shared.heap.collect ensemble.roots).1 :=
  sweep_keeps Shared.log_heap ensemble

theorem Safe.roots (safe : ensemble.Safe) :
    ∀ word ∈ ensemble.roots, ensemble.shared.heap.Resolves word := by
  intro word member
  obtain ⟨strand, listed, root⟩ := List.mem_flatMap.1 member
  exact (safe.rooted strand listed).roots word root

theorem mem_roots (member : strand ∈ ensemble.strands) {word : Word}
    (root : word ∈ strand.executor.roots) : word ∈ ensemble.roots :=
  List.mem_flatMap.2 ⟨strand, member, root⟩

theorem Safe.sweep (safe : ensemble.Safe) : ensemble.sweep.Safe := by
  obtain ⟨now, kept⟩ := safe.intact.collect ensemble.roots safe.roots
  rw [← sweep_heap] at now kept
  refine ⟨now, fun strand member => ?_, ?_, fun report recorded => ?_⟩
  · have listed : strand ∈ ensemble.strands := member
    refine Machine.rooted_of_roots (safe.rooted strand listed) fun word root => ?_
    exact kept word (.root (mem_roots listed root))
  · exact (sweep_keeps Exec.log_spawned ensemble).trans safe.spawned
  · exact safe.fault report ((sweep_keeps Exec.log_fault ensemble).symm.trans recorded)

/-- The end of a run leaves the objects alone but for the mark of a stream. -/
theorem visit_cases (ensemble : Ensemble) (word : Word) (rest : List Word) :
    (∀ stream, ensemble.shared.heap.stream word = .ok stream → stream.closed = true) ∧
        ensemble.visit word rest = { ensemble with finals := some rest } ∨
      ∃ stream, ensemble.shared.heap.stream word = .ok stream ∧ stream.closed = false ∧
        ensemble.visit word rest =
          { ensemble with
            shared := { ensemble.shared with
              heap :=
                ensemble.shared.heap.setPayload word (.stream { stream with closed := true }) }
            duties := ensemble.duties ++ [released stream]
            finals := some rest } := by
  unfold visit
  cases read : ensemble.shared.heap.stream word with
  | error fault => exact Or.inl ⟨nofun, rfl⟩
  | ok stream =>
    by_cases closed : stream.closed = true
    · refine Or.inl ⟨fun other same => ?_, if_pos closed⟩
      cases same
      exact closed
    · exact Or.inr ⟨stream, rfl, Bool.eq_false_iff.2 closed, if_neg closed⟩

theorem Safe.visit (safe : ensemble.Safe) (word : Word) (rest : List Word) :
    (ensemble.visit word rest).Safe := by
  rcases ensemble.visit_cases word rest with ⟨_, same⟩ | ⟨stream, read, _, same⟩
  · rw [same]
    exact ⟨safe.intact, safe.rooted, safe.spawned, safe.fault⟩
  · obtain ⟨object, found⟩ := Heap.stream_eq_ok read
    have refers : ∀ next, (Payload.stream { stream with closed := true }).Refers next →
        ensemble.shared.heap.Resolves next := by
      intro next held
      cases held
    obtain ⟨now, grown⟩ := safe.intact.setPayload found refers nofun
    rw [same]
    exact ⟨now, fun strand member => (safe.rooted strand member).mono grown, safe.spawned,
      safe.fault⟩

theorem Safe.moves (safe : ensemble.Safe) (room : ensemble.hasRoom = true)
    (moves : ensemble.Moves after) : after.Safe := by
  cases moves with
  | enter =>
    refine ⟨safe.intact, fun strand member => ?_, safe.spawned, safe.fault⟩
    rcases List.mem_append.1 member with before | started
    · exact safe.rooted strand before
    · rw [List.mem_singleton.1 started]
      exact Machine.rooted_start _ _ _ _
  | work found works => exact safe.work room found works
  | mark found marks => exact safe.mark found marks
  | complete found _ _ promised => exact safe.complete found promised
  | @close position strand found =>
    refine ⟨safe.intact, fun other member => ?_, safe.spawned, safe.fault⟩
    rcases List.mem_or_eq_of_mem_set member with before | rfl
    · exact safe.rooted other before
    · exact safe.rooted strand (List.mem_of_getElem? found)
  | leave =>
    refine ⟨safe.intact, fun other member => ?_, safe.spawned, safe.fault⟩
    exact safe.rooted other (List.mem_of_mem_eraseIdx member)
  | request =>
    refine ⟨⟨safe.intact.wellFormed.pace _ _, safe.intact.closed, safe.intact.chains⟩, ?_,
      safe.spawned, safe.fault⟩
    intro strand member
    have rooted := safe.rooted strand member
    exact ⟨rooted.eval, rooted.consts, rooted.promise⟩
  | outside => exact ⟨safe.intact, safe.rooted, safe.spawned, safe.fault⟩
  | sweep => exact safe.sweep
  | claim => exact ⟨safe.intact, safe.rooted, safe.spawned, safe.fault⟩
  | @discharge position duty _ =>
    cases duty <;> exact ⟨safe.intact, safe.rooted, safe.spawned, safe.fault⟩
  | finish => exact ⟨safe.intact, safe.rooted, safe.spawned, safe.fault⟩
  | visit => exact safe.visit _ _

theorem safe_new (assembly : Assembly) (settings : Settings) (platform : Platform)
    (journal : Journal) : (Ensemble.new assembly settings platform journal).Safe := by
  have safe := Machine.safe_new assembly settings platform journal
  exact ⟨safe.intact, fun _ nobody => (nomatch nobody), safe.spawned, safe.fault⟩

/-! ## Bounds -/

/-- An ensemble with its code and settings, all of whose executors are within the limits. -/
structure Bounded (assembly : Assembly) (settings : Settings) (ensemble : Ensemble) : Prop where
  code : ensemble.shared.assembly = assembly
  limits : ensemble.shared.settings = settings
  executors : ∀ strand ∈ ensemble.strands, strand.executor.Bounded settings
  spawned : ensemble.shared.spawned = []

variable {assembly : Assembly} {settings : Settings}

theorem Bounded.session (bounded : ensemble.Bounded assembly settings)
    (member : strand ∈ ensemble.strands) : (ensemble.session strand).Bounded where
  own := by
    change strand.executor.Bounded ensemble.shared.settings
    rw [bounded.limits]
    exact bounded.executors strand member
  spawned := by
    intro child joined
    have nobody : child ∈ ensemble.shared.spawned := joined
    rw [bounded.spawned] at nobody
    cases nobody

theorem Bounded.work (bounded : ensemble.Bounded assembly settings)
    (found : ensemble.strands[position]? = some strand)
    (works : ensemble.Works strand computation phase events) :
    (ensemble.perform position { strand with phase } computation events).Bounded assembly
      settings := by
  have keeps := Session.keeps_carry works.keeping (ensemble.session strand)
  have same : ((ensemble.session strand).carry computation).shared.settings = settings :=
    keeps.settings.trans bounded.limits
  obtain ⟨own, spawned⟩ := keeps.bounded (bounded.session (List.mem_of_getElem? found))
  rw [same] at own spawned
  refine ⟨keeps.assembly.trans bounded.code, same, fun other member => ?_, rfl⟩
  rcases mem_strands_perform member with before | rfl | ⟨child, started, rfl⟩
  · exact bounded.executors other before
  · exact own
  · exact spawned child started

theorem Bounded.moves (bounded : ensemble.Bounded assembly settings)
    (moves : ensemble.Moves after) : after.Bounded assembly settings := by
  have ⟨code, limits, executors, nobody⟩ := bounded
  cases moves with
  | @enter ip =>
    refine ⟨code, limits, fun strand member => ?_, nobody⟩
    rcases List.mem_append.1 member with before | started
    · exact executors strand before
    · rw [List.mem_singleton.1 started, limits]
      exact (Executor.bounded_start settings ip).of_stacks rfl rfl rfl
  | work found works => exact bounded.work found works
  | @mark position strand marked found marks =>
    refine ⟨code, limits, fun other member => ?_, nobody⟩
    rcases List.mem_or_eq_of_mem_set member with before | rfl
    · exact executors other before
    · obtain ⟨state, wait, same⟩ := marks.executor
      rw [same]
      exact (executors strand (List.mem_of_getElem? found)).of_stacks rfl rfl rfl
  | @complete position strand promise found =>
    refine ⟨code, limits, fun other member => ?_, nobody⟩
    rcases List.mem_or_eq_of_mem_set member with before | rfl
    · exact executors other before
    · exact executors strand (List.mem_of_getElem? found)
  | @close position strand found =>
    refine ⟨code, limits, fun other member => ?_, nobody⟩
    rcases List.mem_or_eq_of_mem_set member with before | rfl
    · exact executors other before
    · exact executors strand (List.mem_of_getElem? found)
  | leave =>
    refine ⟨code, limits, fun other member => ?_, nobody⟩
    exact executors other (List.mem_of_mem_eraseIdx member)
  | request => exact ⟨code, limits, executors, nobody⟩
  | outside => exact ⟨code, limits, executors, nobody⟩
  | sweep =>
    have logged : ∀ shared line, (Shared.log shared line).assembly = shared.assembly ∧
        (Shared.log shared line).settings = shared.settings := by
      intro shared line
      unfold Shared.log
      split <;> exact ⟨rfl, rfl⟩
    refine ⟨?_, ?_, executors, ?_⟩
    · exact (sweep_keeps (fun shared line => (logged shared line).1) ensemble).trans code
    · exact (sweep_keeps (fun shared line => (logged shared line).2) ensemble).trans limits
    · exact (sweep_keeps Exec.log_spawned ensemble).trans nobody
  | claim => exact ⟨code, limits, executors, nobody⟩
  | @discharge position duty _ =>
    cases duty <;> exact ⟨code, limits, executors, nobody⟩
  | finish => exact ⟨code, limits, executors, nobody⟩
  | @visit word rest _ =>
    rcases ensemble.visit_cases word rest with ⟨_, same⟩ | ⟨stream, _, _, same⟩ <;>
      · rw [same]
        exact ⟨code, limits, executors, nobody⟩

theorem bounded_new (assembly : Assembly) (settings : Settings) (platform : Platform)
    (journal : Journal) :
    (Ensemble.new assembly settings platform journal).Bounded assembly settings :=
  ⟨rfl, rfl, fun _ nobody => (nomatch nobody), rfl⟩

/-! ## Runs -/

theorem run_keeps {holds : Ensemble → Prop}
    (keeps : ∀ before after, holds before → before.Moves after → holds after) {turns : List Turn}
    (start : holds ensemble) (ran : ensemble.run turns = some after) : holds after := by
  induction turns generalizing ensemble with
  | nil =>
    cases ran
    exact start
  | cons turn turns ih =>
    obtain ⟨middle, steps, rest⟩ := Option.bind_eq_some_iff.1 ran
    exact ih (keeps _ _ start (moves_of_step steps)) rest

theorem runWithin_keeps {holds : Ensemble → Prop}
    (keeps : ∀ before after, holds before → before.hasRoom = true → before.Moves after →
      holds after) {turns : List Turn} (start : holds ensemble)
    (ran : ensemble.runWithin turns = some after) : holds after := by
  induction turns generalizing ensemble with
  | nil =>
    cases ran
    exact start
  | cons turn turns ih =>
    obtain ⟨middle, steps, rest⟩ := Option.bind_eq_some_iff.1 ran
    obtain ⟨room, made⟩ := Option.ite_none_right_eq_some.1 steps
    exact ih (keeps _ _ start room (moves_of_step made)) rest

end Ensemble

end WordMachine
