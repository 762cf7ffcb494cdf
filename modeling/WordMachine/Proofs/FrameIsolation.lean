import WordMachine.Proofs.ConstWindows
import WordMachine.Proofs.FutureProtocol

/-!
Calls and the constants of their callers, whatever turns the executors take. From the turn that
opens a frame to the return that takes it off, the constants below it stay as they are and keep
their objects alive; then the caller has its window again.
-/

namespace WordMachine

/-! ## Numbers of executors -/

namespace Session

/-- What is known of the executors that one executor starts while it does something. -/
structure Starts (start session : Session) : Prop where
  id : session.executor.id = start.executor.id
  started : start.shared.started ≤ session.shared.started
  spawned : ∀ child ∈ session.shared.spawned,
    start.shared.started < child.id ∧ child.id ≤ session.shared.started
  distinct : (session.shared.spawned.map (·.id)).Nodup

variable {target : UInt32 → Prop} {start before after : Session}

theorem starts_refl (nobody : start.shared.spawned = []) : start.Starts start where
  id := rfl
  started := Nat.le_refl _
  spawned := by
    rw [nobody]
    exact fun _ member => nomatch member
  distinct := by
    rw [nobody]
    exact List.nodup_nil

theorem Starts.effect (starts : start.Starts before) (effect : Effect target before after) :
    start.Starts after := by
  have id := effect.keeps_own.1.trans starts.id
  cases effect with
  | fork arguments permitted =>
    refine ⟨id, starts.started.trans (Nat.le_succ _), fun child member => ?_, ?_⟩
    · rcases List.mem_cons.1 member with rfl | earlier
      · exact ⟨Nat.lt_succ_of_le starts.started, Nat.le_refl _⟩
      · obtain ⟨above, below⟩ := starts.spawned child earlier
        exact ⟨above, below.trans (Nat.le_succ _)⟩
    · refine List.nodup_cons.2 ⟨fun listed => ?_, starts.distinct⟩
      obtain ⟨child, member, same⟩ := List.mem_map.1 listed
      have below := (starts.spawned child member).2
      rw [same] at below
      exact absurd below (Nat.not_succ_le_self _)
  | _ => exact ⟨id, starts.started, starts.spawned, starts.distinct⟩

theorem Effects.starts (effects : start.Effects target after)
    (nobody : start.shared.spawned = []) : start.Starts after := by
  induction effects with
  | refl => exact starts_refl nobody
  | tail _ effect ih => exact ih.effect effect

end Session

namespace Ensemble

variable {assembly : Assembly} {settings : Settings} {ensemble after : Ensemble}
  {position : Nat} {strand later : Strand}

/-- An ensemble whose executors have different numbers, all of which have been given. -/
structure Numbered (ensemble : Ensemble) : Prop where
  distinct : (ensemble.strands.map (·.executor.id)).Nodup
  started : ∀ strand ∈ ensemble.strands, strand.executor.id ≤ ensemble.shared.started
  spawned : ensemble.shared.spawned = []

theorem Numbered.replace (numbered : ensemble.Numbered)
    (found : ensemble.strands[position]? = some strand)
    (strands : after.strands = ensemble.strands.set position later)
    (id : later.executor.id = strand.executor.id)
    (started : ensemble.shared.started ≤ after.shared.started)
    (spawned : after.shared.spawned = []) : after.Numbered where
  distinct := by
    rw [strands, map_set_of_eq found id]
    exact numbered.distinct
  started := by
    rw [strands]
    intro other member
    rcases List.mem_or_eq_of_mem_set member with before | rfl
    · exact (numbered.started other before).trans started
    · rw [id]
      exact (numbered.started strand (List.mem_of_getElem? found)).trans started
  spawned := spawned

theorem Numbered.work (numbered : ensemble.Numbered) {computation : Exec Unit}
    {phase : Strand.Phase} {events : Session → List Event}
    (found : ensemble.strands[position]? = some strand)
    (works : ensemble.Works strand computation phase events) :
    (ensemble.perform position { strand with phase } computation events).Numbered := by
  have starts := works.effects.starts numbered.spawned
  have names : (ensemble.perform position { strand with phase } computation events).strands.map
      (·.executor.id) = ensemble.strands.map (·.executor.id) ++
        (((ensemble.session strand).carry computation).shared.spawned.map (·.id)).reverse := by
    change (List.set _ _ _ ++ List.map (fun executor => ({ executor } : Strand)) _).map
      (fun strand : Strand => strand.executor.id) = _
    rw [List.map_append, map_set_of_eq found starts.id, List.map_map, ← List.map_reverse]
    rfl
  refine ⟨?_, fun other member => ?_, rfl⟩
  · rw [names]
    refine List.nodup_append.2 ⟨numbered.distinct, List.nodup_reverse.2 starts.distinct, ?_⟩
    intro id listed other started
    obtain ⟨before, member, rfl⟩ := List.mem_map.1 listed
    obtain ⟨child, spawned, rfl⟩ := List.mem_map.1 (List.mem_reverse.1 started)
    exact ((numbered.started before member).trans_lt (starts.spawned child spawned).1).ne
  · rcases mem_strands_perform member with before | rfl | ⟨child, spawned, rfl⟩
    · exact (numbered.started other before).trans starts.started
    · refine le_of_eq_of_le starts.id ?_
      exact (numbered.started strand (List.mem_of_getElem? found)).trans starts.started
    · exact (starts.spawned child spawned).2

theorem Numbered.moves (numbered : ensemble.Numbered) (moves : ensemble.Moves after) :
    after.Numbered := by
  have ⟨distinct, started, spawned⟩ := numbered
  cases moves with
  | enter =>
    refine ⟨?_, fun other member => ?_, spawned⟩
    · unfold Ensemble.enter
      rw [List.map_append]
      refine List.nodup_append.2 ⟨distinct, List.nodup_singleton _, ?_⟩
      intro id listed other entered
      obtain ⟨before, member, rfl⟩ := List.mem_map.1 listed
      rw [List.mem_singleton.1 entered]
      exact (Nat.lt_succ_of_le (started before member)).ne
    · rcases List.mem_append.1 member with before | entered
      · exact (started other before).trans (Nat.le_succ _)
      · rw [List.mem_singleton.1 entered]
        exact Nat.le_refl _
  | work found works => exact numbered.work found works
  | mark found marks =>
    obtain ⟨state, wait, same⟩ := marks.executor
    exact numbered.replace found rfl (by rw [same]) (Nat.le_refl _) spawned
  | complete found => exact numbered.replace found rfl rfl (Nat.le_refl _) spawned
  | close found => exact numbered.replace found rfl rfl (Nat.le_refl _) spawned
  | leave =>
    refine ⟨?_, fun other member => started other (List.mem_of_mem_eraseIdx member), spawned⟩
    exact distinct.sublist ((List.eraseIdx_sublist _ _).map _)
  | sweep =>
    refine ⟨distinct, ?_, (sweep_keeps Exec.log_spawned ensemble).trans spawned⟩
    have logged : ∀ shared line, (Shared.log shared line).started = shared.started := by
      intro shared line
      unfold Shared.log
      split <;> rfl
    rw [sweep_keeps logged ensemble]
    exact started
  | @discharge position duty _ => cases duty <;> exact ⟨distinct, started, spawned⟩
  | @visit word rest _ =>
    rcases ensemble.visit_cases word rest with ⟨_, same⟩ | ⟨stream, _, _, same⟩ <;>
      · rw [same]
        exact ⟨distinct, started, spawned⟩
  | _ => exact ⟨distinct, started, spawned⟩

theorem numbered_new (assembly : Assembly) (settings : Settings) (platform : Platform)
    (journal : Journal) : (Ensemble.new assembly settings platform journal).Numbered :=
  ⟨List.nodup_nil, fun _ nobody => (nomatch nobody), rfl⟩

theorem Numbered.unique (numbered : ensemble.Numbered) {other : Strand}
    (member : strand ∈ ensemble.strands) (otherMember : other ∈ ensemble.strands)
    (same : strand.executor.id = other.executor.id) : strand = other :=
  List.inj_on_of_nodup_map numbered.distinct member otherMember same

theorem Numbered.of_set (numbered : ensemble.Numbered) {former changed : Strand}
    (found : ensemble.strands[position]? = some former)
    (id : changed.executor.id = former.executor.id) (member : strand ∈ ensemble.strands)
    (listed : later ∈ ensemble.strands.set position changed)
    (same : later.executor.id = strand.executor.id) :
    later = strand ∨ strand = former ∧ later = changed := by
  rcases mem_set_of_nodup numbered.distinct found listed with rfl | ⟨before, _⟩
  · exact Or.inr ⟨numbered.unique member (List.mem_of_getElem? found) (same.symm.trans id), rfl⟩
  · exact Or.inl (numbered.unique before member same)

theorem Numbered.of_work (numbered : ensemble.Numbered) {former : Strand}
    {computation : Exec Unit} {phase : Strand.Phase} {events : Session → List Event}
    (found : ensemble.strands[position]? = some former)
    (works : ensemble.Works former computation phase events) (member : strand ∈ ensemble.strands)
    (listed : later ∈
      (ensemble.perform position { former with phase } computation events).strands)
    (same : later.executor.id = strand.executor.id) :
    later = strand ∨ strand = former ∧
      later.executor = ((ensemble.session strand).carry computation).executor := by
  have starts := works.effects.starts numbered.spawned
  rcases List.mem_append.1 listed with kept | started
  · refine (numbered.of_set found starts.id member kept same).imp_right ?_
    rintro ⟨rfl, rfl⟩
    exact ⟨rfl, rfl⟩
  · obtain ⟨child, spawned, rfl⟩ := List.mem_map.1 started
    have above := (starts.spawned child (List.mem_reverse.1 spawned)).1
    have below := numbered.started strand member
    exact absurd (above.trans_le (le_of_eq_of_le same below)) (Nat.lt_irrefl _)

end Ensemble

/-! ## Windows -/

theorem Session.windows_raise (session : Session) (fault : Fault) :
    (session.raise fault).executor.windows = session.executor.windows := by
  unfold raise
  split <;> rfl

theorem Session.windows_carry (session : Session) (computation : Exec Unit) :
    (session.carry computation).executor.windows =
      (Exec.ending (computation session)).executor.windows := by
  unfold carry
  cases computation session with
  | ok value after => rfl
  | error fault after => exact after.windows_raise fault

namespace Exec

theorem indifferent_asking (op : Opcode) : Indifferent (asking op) := by
  have begun : Indifferent (begin op) := by
    refine { under := fun _ _ _ => rfl, settled := ?settled, keeping := ?keeping }
    case settled =>
      intro session value after settled ran
      cases ran
      exact settled
    case keeping =>
      intro session
      exact keeps_fetched session op _
  have limited : Indifferent (limit op) :=
    .ite (indifferent_popLong.bind fun _ => indifferent_pure _) (indifferent_pure _)
  exact (begun.bind fun _ => limited.bind fun _ => indifferent_peek.bind fun _ =>
    (indifferent_look _).bind fun _ => indifferent_pure _).bind fun _ => indifferent_pure _

theorem indifferent_replace (outcome : Word × ExecState) : Indifferent (replace outcome) :=
  indifferent_pop.bind fun _ => .ite (indifferent_push _) (indifferent_fail _)

theorem indifferent_answer (done : Bool) : Indifferent (answer done) :=
  indifferent_pop.bind fun _ => indifferent_push _

end Exec

namespace Ensemble

variable {assembly : Assembly} {settings : Settings} {ensemble after : Ensemble}
  {position id : Nat} {strand later : Strand} {executor now : Executor} {turn : Turn}

def executor? (ensemble : Ensemble) (id : Nat) : Option Executor :=
  (ensemble.strands.find? (·.executor.id = id)).map (·.executor)

/-- The session that carries out an instruction in a turn, if one does. -/
def issues? (ensemble : Ensemble) : Turn → Option Session
  | .strand position .issue => ensemble.strands[position]?.map ensemble.session
  | _ => none

theorem exists_strand (known : ensemble.executor? id = some executor) :
    executor.id = id ∧ ∃ strand ∈ ensemble.strands, strand.executor = executor := by
  obtain ⟨strand, found, rfl⟩ := Option.map_eq_some_iff.1 known
  have named := List.find?_some found
  exact ⟨of_decide_eq_true named, strand, List.mem_of_find?_eq_some found, rfl⟩

theorem Numbered.executor?_eq (numbered : ensemble.Numbered) (member : strand ∈ ensemble.strands) :
    ensemble.executor? strand.executor.id = some strand.executor := by
  unfold executor?
  cases found : ensemble.strands.find? (·.executor.id = strand.executor.id) with
  | none => simpa using List.find?_eq_none.1 found strand member
  | some other =>
    have named := List.find?_some found
    have same := of_decide_eq_true named
    rw [numbered.unique (List.mem_of_find?_eq_some found) member same]
    rfl

/-- The windows of a strand after an act that carries out no instruction of its code. -/
theorem Numbered.windows_of_act (numbered : ensemble.Numbered) {former : Strand} {act : Strand.Act}
    (found : ensemble.strands[position]? = some former) (other : act ≠ .issue)
    (acts : ensemble.act position former act = some after) (member : strand ∈ ensemble.strands)
    (listed : later ∈ after.strands) (same : later.executor.id = strand.executor.id) :
    later.executor.windows = strand.executor.windows := by
  have worked : ∀ {computation phase events}, Exec.Indifferent computation →
      ensemble.Works former computation phase events →
      after = ensemble.perform position { former with phase } computation events →
      later.executor.windows = strand.executor.windows := by
    rintro computation phase events indifferent works rfl
    rcases numbered.of_work found works member listed same with rfl | ⟨_, done⟩
    · rfl
    · rw [done, Session.windows_carry, indifferent.windows]
      rfl
  have changed : ∀ {changed : Strand}, after.strands = ensemble.strands.set position changed →
      changed.executor.id = former.executor.id →
      changed.executor.windows = former.executor.windows →
      later.executor.windows = strand.executor.windows := by
    intro changed strands id windows
    rw [strands] at listed
    rcases numbered.of_set found id member listed same with rfl | ⟨rfl, rfl⟩
    · rfl
    · exact windows
  cases act with
  | issue => exact absurd rfl other
  | ask =>
    dsimp only [Ensemble.act] at acts
    split at acts
    · next op joins =>
      obtain ⟨⟨free, running⟩, made⟩ := Option.ite_none_right_eq_some.1 acts
      cases made
      exact worked (Exec.indifferent_asking op) (.ask free running joins) rfl
    · cases acts
  | settle =>
    obtain ⟨⟨free, paused, waits⟩, made⟩ := Option.ite_none_right_eq_some.1 acts
    cases made
    refine worked Exec.indifferent_settle (.settle free paused waits) ?_
    rw [← free]
  | stop =>
    obtain ⟨_, made⟩ := Option.ite_none_right_eq_some.1 acts
    cases made
    exact changed rfl rfl rfl
  | abort | cancel =>
    cases acts
    exact changed rfl rfl rfl
  | look | pause =>
    dsimp only [Ensemble.act] at acts
    split at acts
    · cases acts
      exact changed rfl rfl rfl
    · cases acts
  | wake =>
    dsimp only [Ensemble.act] at acts
    split at acts
    · obtain ⟨_, made⟩ := Option.ite_none_right_eq_some.1 acts
      cases made
      exact changed rfl rfl rfl
    · cases acts
  | resume =>
    dsimp only [Ensemble.act] at acts
    split at acts
    · cases acts
      refine changed rfl ?_ ?_ <;> split <;> rfl
    · cases acts
  | join =>
    dsimp only [Ensemble.act] at acts
    split at acts
    · next joining ready =>
      cases acts
      cases limited : joining.limit with
      | none =>
        refine worked (Exec.indifferent_replace _) (.join ready limited) ?_
        rw [limited]
        rfl
      | some limit =>
        refine worked (Exec.indifferent_answer _)
          (.tell ready (limited ▸ Option.some_ne_none limit)) ?_
        rw [limited]
        rfl
    · cases acts
  | complete =>
    dsimp only [Ensemble.act] at acts
    split at acts
    · obtain ⟨_, made⟩ := Option.ite_none_right_eq_some.1 acts
      cases made
      exact changed rfl rfl rfl
    · cases acts
  | close =>
    obtain ⟨_, made⟩ := Option.ite_none_right_eq_some.1 acts
    cases made
    exact changed rfl rfl rfl
  | leave =>
    obtain ⟨_, made⟩ := Option.ite_none_right_eq_some.1 acts
    cases made
    rw [numbered.unique (List.mem_of_mem_eraseIdx listed) member same]

/-- What a turn makes of the windows of an executor. Only an instruction of the executor itself
changes them. -/
theorem Numbered.windows_of_step (numbered : ensemble.Numbered)
    (steps : ensemble.step turn = some after) (known : ensemble.executor? id = some executor)
    (stays : after.executor? id = some now) :
    now.windows = executor.windows ∨ ∃ session, ensemble.issues? turn = some session ∧
      session.executor = executor ∧ session.Shifts now.windows := by
  obtain ⟨named, strand, member, rfl⟩ := exists_strand known
  obtain ⟨again, later, listed, rfl⟩ := exists_strand stays
  have same : later.executor.id = strand.executor.id := again.trans named.symm
  have unmoved : after.strands = ensemble.strands →
      later.executor.windows = strand.executor.windows := by
    intro strands
    rw [strands] at listed
    rw [numbered.unique listed member same]
  cases turn with
  | enter ip =>
    obtain ⟨_, made⟩ := Option.ite_none_right_eq_some.1 steps
    cases made
    rcases List.mem_append.1 listed with before | entered
    · rw [numbered.unique before member same]
      exact Or.inl rfl
    · rw [List.mem_singleton.1 entered] at same
      have below := numbered.started strand member
      rw [← same] at below
      exact absurd below (Nat.not_succ_le_self _)
  | strand position act =>
    dsimp only [step] at steps
    split at steps
    · next former found =>
      by_cases issues : act = .issue
      · subst issues
        obtain ⟨⟨free, running, other⟩, made⟩ := Option.ite_none_right_eq_some.1 steps
        cases made
        have worked := @Numbered.of_work _ _ strand later numbered former _ _ (fun _ => []) found
          (.issue free running other) member
        rw [← free] at worked
        rcases worked listed same with rfl | ⟨rfl, done⟩
        · exact Or.inl rfl
        · refine Or.inr ⟨ensemble.session strand, ?_, rfl, ?_⟩
          · change ensemble.strands[position]?.map ensemble.session = _
            rw [found]
            rfl
          · rw [done, Session.windows_carry]
            exact Exec.shifts_issue _
      · exact Or.inl (numbered.windows_of_act found issues steps member listed same)
    · cases steps
  | request | outside =>
    cases steps
    exact Or.inl (unmoved rfl)
  | sweep | finish =>
    obtain ⟨_, made⟩ := Option.ite_none_right_eq_some.1 steps
    cases made
    exact Or.inl (unmoved rfl)
  | claim position =>
    dsimp only [step] at steps
    split at steps
    · cases steps
      exact Or.inl (unmoved rfl)
    · cases steps
  | discharge position =>
    dsimp only [step] at steps
    split at steps
    · next duty found =>
      cases steps
      cases duty <;> exact Or.inl (unmoved rfl)
    · cases steps
  | visit =>
    dsimp only [step] at steps
    split at steps
    · next word rest ahead =>
      cases steps
      refine Or.inl (unmoved ?_)
      rcases ensemble.visit_cases word rest with ⟨_, same⟩ | ⟨stream, _, _, same⟩ <;> rw [same]
    · cases steps

/-! ## Calls -/

/-- What is known of an ensemble in the course of a run. -/
structure Steady (assembly : Assembly) (settings : Settings) (ensemble : Ensemble) : Prop where
  bounded : ensemble.Bounded assembly settings
  numbered : ensemble.Numbered

theorem Steady.step (steady : ensemble.Steady assembly settings)
    (steps : ensemble.step turn = some after) : after.Steady assembly settings :=
  ⟨steady.bounded.moves (moves_of_step steps), steady.numbered.moves (moves_of_step steps)⟩

theorem steady_of_run {turns : List Turn} {platform : Platform} {journal : Journal}
    (ran : (Ensemble.new assembly settings platform journal).run turns = some ensemble) :
    ensemble.Steady assembly settings :=
  run_keeps (fun _ _ steady moves => ⟨steady.bounded.moves moves, steady.numbered.moves moves⟩)
    ⟨bounded_new assembly settings platform journal,
      numbered_new assembly settings platform journal⟩ ran

theorem Steady.ordered (steady : ensemble.Steady assembly settings)
    (known : ensemble.executor? id = some executor) : executor.windows.Ordered := by
  obtain ⟨_, strand, member, rfl⟩ := exists_strand known
  exact (steady.bounded.executors strand member).ordered

/-- Turns during which an executor stays in a call that was made with `depth` calls in progress. -/
def InCall (id depth : Nat) : Ensemble → Ensemble → Prop :=
  Relation.ReflTransGen fun before after => ∃ turn now, before.step turn = some after ∧
    after.executor? id = some now ∧ depth < now.calls.frames.size

/-- Turns during which a call stays in progress and does not store in a slot of its window. -/
def Unstored (id depth : Nat) (slot : UInt8) : Ensemble → Ensemble → Prop :=
  Relation.ReflTransGen fun before after => ∃ turn now, before.step turn = some after ∧
    after.executor? id = some now ∧ depth ≤ now.calls.frames.size ∧
      ∀ session, before.issues? turn = some session → session.executor.id = id →
        ¬ session.StoresAt depth slot

section Calls

variable {caller callee returned : Executor} {opened : Ensemble}

theorem Steady.opens (steady : ensemble.Steady assembly settings)
    (steps : ensemble.step turn = some opened) (before : ensemble.executor? id = some caller)
    (entered : opened.executor? id = some callee)
    (deeper : caller.calls.frames.size < callee.calls.frames.size) :
    ∃ session, ensemble.issues? turn = some session ∧ session.executor = caller ∧
      (session.IssuesCall .normal ∨ ∃ size, session.instruction? = some (.force, size)) ∧
      ∃ frame, caller.windows.SavedIn frame ∧ callee.windows = caller.windows.opened frame := by
  rcases steady.numbered.windows_of_step steps before entered with
    same | ⟨session, issues, rfl, shifts⟩
  · have calls : callee.calls = caller.calls := (Windows.mk.inj same).2
    rw [calls] at deeper
    exact absurd deeper (Nat.lt_irrefl _)
  · obtain ⟨calls, frame, saved, entered⟩ := shifts.opens deeper
    exact ⟨session, issues, rfl, calls, frame, saved, entered⟩

theorem Steady.above_step (steady : ensemble.Steady assembly settings)
    (known : ensemble.executor? id = some executor) (above : caller.windows.Above executor.windows)
    (steps : ensemble.step turn = some after) (stays : after.executor? id = some now)
    (inside : caller.calls.frames.size < now.calls.frames.size) :
    caller.windows.Above now.windows := by
  rcases steady.numbered.windows_of_step steps known stays with same | ⟨session, _, rfl, shifts⟩
  · rw [same]
    exact above
  · exact above.shift (steady.ordered known) shifts inside

/-- As long as a call goes on, the constants and frames of its caller lie below its own. -/
theorem Steady.above (steady : opened.Steady assembly settings)
    (entered : opened.executor? id = some callee) (above : caller.windows.Above callee.windows)
    (inCall : InCall id caller.calls.frames.size opened ensemble) :
    ensemble.Steady assembly settings ∧
      ∃ now, ensemble.executor? id = some now ∧ caller.windows.Above now.windows := by
  induction inCall with
  | refl => exact ⟨steady, callee, entered, above⟩
  | tail _ turned ih =>
    obtain ⟨steady, executor, known, above⟩ := ih
    obtain ⟨turn, now, steps, stays, inside⟩ := turned
    exact ⟨steady.step steps, now, stays, steady.above_step known above steps stays inside⟩

theorem Steady.returns (steady : ensemble.Steady assembly settings)
    (known : ensemble.executor? id = some executor) (above : caller.windows.Above executor.windows)
    (steps : ensemble.step turn = some after) (stays : after.executor? id = some returned)
    (back : returned.calls.frames.size ≤ caller.calls.frames.size) :
    (∃ session size, ensemble.issues? turn = some session ∧ session.executor = executor ∧
        session.instruction? = some (.ret, size)) ∧
      returned.windows = caller.windows := by
  rcases steady.numbered.windows_of_step steps known stays with
    same | ⟨session, issues, rfl, shifts⟩
  · have calls : returned.calls = executor.calls := (Windows.mk.inj same).2
    rw [calls] at back
    exact absurd above.deeper (Nat.not_lt.2 back)
  · obtain ⟨⟨size, found⟩, same⟩ := above.returns (steady.ordered known) shifts back
    exact ⟨⟨session, size, issues, rfl, found⟩, same⟩

/-- What the caller has in its slots stays among the words that keep objects alive. -/
theorem mem_roots_of_above (known : ensemble.executor? id = some executor)
    (above : caller.windows.Above executor.windows) {word : Word}
    (member : word ∈ caller.consts.slots) : word ∈ ensemble.roots := by
  obtain ⟨_, strand, listed, rfl⟩ := exists_strand known
  obtain ⟨place, inside, rfl⟩ := Array.mem_iff_getElem.1 member
  refine mem_roots listed (List.mem_append_left _ (List.mem_append_right _ ?_))
  refine Array.mem_toList_iff.2 (@Array.mem_of_getElem? _ _ place _ ?_)
  exact (above.slots place inside).trans (Array.getElem?_eq_getElem inside)

end Calls

/-! ## Reserved slots -/

section Slots

variable {depth base : Nat} {slot : UInt8} {opened : Ensemble}
variable {session : Session}

theorem Steady.zero (steady : opened.Steady assembly settings)
    (known : opened.executor? id = some executor) (zero : executor.windows.Zero depth base slot)
    (inside : depth ≤ executor.calls.frames.size)
    (unstored : Unstored id depth slot opened ensemble) :
    ensemble.Steady assembly settings ∧ ∃ now, ensemble.executor? id = some now ∧
      depth ≤ now.calls.frames.size ∧ now.windows.Zero depth base slot := by
  induction unstored with
  | refl => exact ⟨steady, executor, known, inside, zero⟩
  | tail _ turned ih =>
    obtain ⟨steady, executor, known, inside, zero⟩ := ih
    obtain ⟨turn, now, steps, stays, still, spares⟩ := turned
    refine ⟨steady.step steps, now, stays, still, ?_⟩
    rcases steady.numbered.windows_of_step steps known stays with
      same | ⟨session, issues, rfl, shifts⟩
    · rw [same]
      exact zero
    · exact zero.shift (steady.ordered known) shifts inside still
        (spares session issues (exists_strand known).1)

theorem Numbered.issued (numbered : ensemble.Numbered)
    (issues : ensemble.issues? turn = some session) (steps : ensemble.step turn = some after) :
    session.executor.state = .running ∧
      ensemble.executor? session.executor.id = some session.executor ∧
      after.executor? session.executor.id = some (session.carry Exec.issue).executor := by
  cases turn with
  | strand position act =>
    cases act with
    | issue =>
      obtain ⟨strand, found, rfl⟩ := Option.map_eq_some_iff.1 issues
      have moved := numbered.moves (moves_of_step steps)
      dsimp only [step] at steps
      rw [found] at steps
      obtain ⟨⟨free, running, other⟩, made⟩ := Option.ite_none_right_eq_some.1 steps
      cases made
      have works : ensemble.Works strand Exec.issue .free fun _ => [] :=
        .issue free running other
      have id := (works.effects.starts numbered.spawned).id
      have listed : { strand with
          executor := ((ensemble.session strand).carry Exec.issue).executor } ∈
            (ensemble.perform position strand Exec.issue fun _ => []).strands :=
        List.mem_append_left _ (List.mem_set (List.getElem?_eq_some_iff.1 found).1 _)
      refine ⟨running, numbered.executor?_eq (List.mem_of_getElem? found), ?_⟩
      rw [← id]
      exact moved.executor?_eq listed
    | _ => cases issues
  | _ => cases issues

/-- A reservation clears the window, or ends execution for lack of room. -/
theorem carry_reserve (running : session.executor.state = .running) {size : Nat}
    (found : session.instruction? = some (.reserveConsts, size)) :
    (session.carry Exec.issue).executor.calls = session.executor.calls ∧
      ((session.carry Exec.issue).executor.state = .stackOverflow ∧
          (session.carry Exec.issue).executor.consts = session.executor.consts ∨
        (session.carry Exec.issue).executor.consts =
          session.executor.consts.reserve (session.operand 0).toNat) := by
  have reserved : (session.carry Exec.issue).executor =
      if session.executor.consts.base + (session.operand 0).toNat ≤
          session.executor.consts.capacity then
        { (session.fetched .reserveConsts (session.executor.ip + UInt32.ofNat size)).executor with
          consts := session.executor.consts.reserve (session.operand 0).toNat }
      else
        (session.fetched .reserveConsts (session.executor.ip + UInt32.ofNat size)).executor.fail
          .stackOverflow := by
    unfold Session.carry
    rw [Exec.issue_some session found]
    rfl
  rw [reserved]
  by_cases fits : session.executor.consts.base + (session.operand 0).toNat ≤
      session.executor.consts.capacity
  · rw [if_pos fits]
    exact ⟨rfl, Or.inr rfl⟩
  · rw [if_neg fits, Executor.fail_eq]
    exact ⟨rfl, Or.inl ⟨if_pos running, rfl⟩⟩

/-- What a reservation has made of the window: its slots hold zero, and so does each of them until
something is stored in it. -/
structure Clears (session : Session) (opened : Ensemble) (reserved : Executor) : Prop where
  load : ∀ slot, slot.toNat < (session.operand 0).toNat → reserved.consts.load slot = .ok 0
  loadLater : ∀ slot later now word,
    Unstored session.executor.id session.executor.calls.frames.size slot opened later →
    later.executor? session.executor.id = some now →
    now.calls.frames.size = session.executor.calls.frames.size →
    now.consts.load slot = .ok word → word = 0

theorem Steady.clears (steady : ensemble.Steady assembly settings)
    (issues : ensemble.issues? turn = some session) (steps : ensemble.step turn = some opened)
    (calls : (session.carry Exec.issue).executor.calls = session.executor.calls)
    (consts : (session.carry Exec.issue).executor.consts =
      session.executor.consts.reserve (session.operand 0).toNat) :
    Clears session opened (session.carry Exec.issue).executor := by
  obtain ⟨_, known, reserved⟩ := steady.numbered.issued issues steps
  have window : session.executor.consts.base ≤ session.executor.consts.top :=
    (steady.ordered known).window
  constructor
  case load =>
    intro slot inside
    have clear := ConstStack.reserve_clear window (Nat.le_add_right _ slot.toNat)
      (by rw [ConstStack.top_reserve window]; exact Nat.add_lt_add_left inside _)
    rw [consts]
    unfold ConstStack.load
    dsimp only
    rw [show (session.executor.consts.reserve _).base = session.executor.consts.base from rfl,
      clear]
  case loadLater =>
    intro slot later now word unstored stays current loaded
    have zero : Windows.Zero session.executor.calls.frames.size session.executor.consts.base slot
        (session.carry Exec.issue).executor.windows := by
      refine (Windows.zero_iff_of_current (by rw [← calls]; rfl)).2 ?_
      change (session.carry Exec.issue).executor.consts.base = _ ∧
        (_ < (session.carry Exec.issue).executor.consts.top →
          (session.carry Exec.issue).executor.consts.slots[_]? = _)
      rw [consts]
      exact ⟨rfl, ConstStack.reserve_clear window (Nat.le_add_right _ _)⟩
    obtain ⟨_, other, again, _, zero⟩ := (steady.step steps).zero reserved zero (by rw [calls])
      unstored
    obtain rfl : other = now := Option.some.inj (again.symm.trans stays)
    exact zero.load current loaded

end Slots

/-! ## Runs -/

/-- At any point of any run a call leaves its caller's constants alone and gives them back, and the
slots that are reserved hold zero until something is stored in them.

A frame is opened by a normal call or the request of a lazy value; it keeps the caller's window,
above which the new one begins. While the call goes on, whatever any executor does, the slots below
the frame's top stay as they are and count among the words that keep objects alive. Only a return
goes back to the caller, which then has the base, the top and the contents of its window that it
had at the call. -/
theorem frames_isolate_consts {turns : List Turn} {platform : Platform} {journal : Journal}
    (ran : (Ensemble.new assembly settings platform journal).run turns = some ensemble) :
    (∀ id turn caller opened callee, ensemble.step turn = some opened →
      ensemble.executor? id = some caller → opened.executor? id = some callee →
      caller.calls.frames.size < callee.calls.frames.size →
      (∃ session, ensemble.issues? turn = some session ∧ session.executor = caller ∧
        (session.IssuesCall .normal ∨ ∃ size, session.instruction? = some (.force, size)) ∧
        ∃ frame, frame.base = caller.consts.base ∧ frame.top = caller.consts.top ∧
          callee.calls.frames = caller.calls.frames.push frame ∧
          callee.consts = caller.consts.enter) ∧
      ∀ later, InCall id caller.calls.frames.size opened later →
        (∃ now, later.executor? id = some now ∧
          (∀ place, place < caller.consts.top →
            now.consts.slots[place]? = caller.consts.slots[place]?) ∧
          ∀ word ∈ caller.consts.slots, word ∈ later.roots) ∧
        ∀ turn final returned, later.step turn = some final →
          final.executor? id = some returned →
          returned.calls.frames.size ≤ caller.calls.frames.size →
          (∃ session size, later.issues? turn = some session ∧ session.executor.id = id ∧
            session.instruction? = some (.ret, size)) ∧
          returned.consts = caller.consts ∧ returned.calls = caller.calls) ∧
    ∀ turn session size opened, ensemble.issues? turn = some session →
      session.instruction? = some (.reserveConsts, size) → ensemble.step turn = some opened →
      ∃ reserved, opened.executor? session.executor.id = some reserved ∧
        reserved.calls = session.executor.calls ∧
        (reserved.state = .stackOverflow ∧ reserved.consts = session.executor.consts ∨
          Clears session opened reserved) := by
  have steady := steady_of_run ran
  constructor
  case right =>
    intro turn session size opened issues found steps
    obtain ⟨running, _, reserved⟩ := steady.numbered.issued issues steps
    obtain ⟨calls, made⟩ := carry_reserve running found
    exact ⟨_, reserved, calls, made.imp_right (steady.clears issues steps calls)⟩
  intro id turn caller opened callee steps before entered deeper
  obtain ⟨session, issues, same, calls, frame, saved, pushed⟩ :=
    steady.opens steps before entered deeper
  obtain ⟨consts, frames⟩ := Windows.mk.inj pushed
  refine ⟨⟨session, issues, same, calls, frame, saved.1, saved.2, congrArg _ frames, consts⟩,
    fun later inCall => ?_⟩
  have above : caller.windows.Above callee.windows := by
    rw [pushed]
    exact .of_opened saved
  obtain ⟨still, now, known, above⟩ := (steady.step steps).above entered above inCall
  refine ⟨⟨now, known, above.slots, fun word member => mem_roots_of_above known above member⟩,
    fun turn final returned returns stays back => ?_⟩
  obtain ⟨⟨session, size, issues, rfl, found⟩, same⟩ := still.returns known above returns stays back
  obtain ⟨consts, calls⟩ := Windows.mk.inj same
  exact ⟨⟨session, size, issues, (exists_strand known).1, found⟩, consts, calls⟩

/-- The entry point stores seven and makes a call, which reserves two slots and returns. -/
def nesting : Assembly where
  code := Bytes.ofList [16, 1, 1, 7, 0, 0, 0, 17, 0, 146, 17, 0, 0, 0, 0, 0, 149, 16, 2, 149]
  literals := #[]
  entries := #[0]

/-- Within the call there are three slots, the lowest of them the caller's, which has it again once
the call has returned. -/
theorem frames_isolate_consts_nesting :
    ∃ before opened later final caller callee now returned,
      (Ensemble.new nesting { evalStack := 1, constStack := 3, callStack := 1 } default .off).run
          [.enter 0, .strand 0 .issue, .strand 0 .issue, .strand 0 .issue] = some before ∧
      before.step (.strand 0 .issue) = some opened ∧ opened.step (.strand 0 .issue) = some later ∧
      later.step (.strand 0 .issue) = some final ∧
      before.executor? 1 = some caller ∧ opened.executor? 1 = some callee ∧
      later.executor? 1 = some now ∧ final.executor? 1 = some returned ∧
      caller.consts.slots = #[.ofInt 7] ∧ callee.consts.base = 1 ∧
      now.consts.slots = #[.ofInt 7, 0, 0] ∧ returned.consts = caller.consts := by
  have happened :
      ((Ensemble.new nesting { evalStack := 1, constStack := 3, callStack := 1 } default .off).run
        [.enter 0, .strand 0 .issue, .strand 0 .issue, .strand 0 .issue]).bind (fun before =>
        (before.step (.strand 0 .issue)).bind fun opened =>
        (opened.step (.strand 0 .issue)).bind fun later =>
        (later.step (.strand 0 .issue)).bind fun final =>
        (before.executor? 1).bind fun caller => (opened.executor? 1).bind fun callee =>
        (later.executor? 1).bind fun now => (final.executor? 1).map fun returned =>
          (caller.consts.slots, now.consts.slots, [callee.consts.base, caller.calls.frames.size,
            callee.calls.frames.size, now.calls.frames.size, returned.calls.frames.size])) =
      some (#[.ofInt 7], #[.ofInt 7, 0, 0], [1, 0, 1, 1, 0]) := by
    decide +kernel
  obtain ⟨before, ran, happened⟩ := Option.bind_eq_some_iff.1 happened
  obtain ⟨opened, calls, happened⟩ := Option.bind_eq_some_iff.1 happened
  obtain ⟨later, reserves, happened⟩ := Option.bind_eq_some_iff.1 happened
  obtain ⟨final, returns, happened⟩ := Option.bind_eq_some_iff.1 happened
  obtain ⟨caller, known, happened⟩ := Option.bind_eq_some_iff.1 happened
  obtain ⟨callee, entered, happened⟩ := Option.bind_eq_some_iff.1 happened
  obtain ⟨now, goesOn, happened⟩ := Option.bind_eq_some_iff.1 happened
  obtain ⟨returned, back, same⟩ := Option.map_eq_some_iff.1 happened
  simp only [Prod.mk.injEq, List.cons.injEq] at same
  obtain ⟨slots, above, base, atCall, inside, within, after, _⟩ := same
  obtain ⟨_, kept⟩ := (frames_isolate_consts ran).1 1 _ caller opened callee calls known entered
    (by rw [atCall, inside]; decide)
  have inCall : InCall 1 caller.calls.frames.size opened later :=
    .single ⟨_, now, reserves, goesOn, by rw [atCall, within]; decide⟩
  obtain ⟨_, consts, _⟩ := (kept later inCall).2 _ final returned returns back
    (by rw [atCall, after])
  exact ⟨before, opened, later, final, caller, callee, now, returned, ran, calls, reserves, returns,
    known, entered, goesOn, back, slots, base, above, consts⟩

end Ensemble

end WordMachine
