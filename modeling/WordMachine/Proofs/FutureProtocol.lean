import WordMachine.Proofs.Ensembles
import WordMachine.Proofs.FutureHistories

/-!
The protocol of futures. Whatever turns executors take, a call hands over its result once and before
it leaves, a waiter takes an outcome only after that, and what it takes is that outcome.
-/

namespace WordMachine

/-! ## Asking and answering -/

namespace Exec

open Evaluation (exec_bind exec_pop withOperands)

variable {session after : Session} {word : Word}
variable {rest : Array Word}

theorem pop_eq_ok (popped : pop session = .ok word after) :
    after.executor.state = session.executor.state ∧ after.shared = session.shared := by
  obtain ⟨executor, shared⟩ := session
  unfold pop onEval at popped
  dsimp only at popped
  split at popped
  · cases popped
    exact ⟨rfl, rfl⟩
  · cases popped

theorem peek_eq_ok (peeked : peek session = .ok word after) :
    after = session ∧ ∃ rest : Array Word, session.executor.eval.items = rest.push word := by
  unfold peek peekBehind EvalStack.peekBehind at peeked
  split at peeked
  · next top =>
    cases peeked
    split at top
    · next inside =>
      obtain ⟨rest, last, items⟩ := Array.exists_push_of_size_pos inside
      cases top
      exact ⟨rfl, rest, by simp [items]⟩
    · cases top
  · cases peeked

theorem limit_eq_ok {op : Opcode} {found : Option Int64}
    (limited : limit op session = .ok found after) :
    after.executor.state = session.executor.state ∧ after.shared = session.shared ∧
      (op = .await → found = none ∧ after = session) := by
  unfold limit at limited
  split at limited
  · next timed =>
    obtain ⟨value, middle, popped, done⟩ := bind_eq_ok limited
    obtain ⟨long, between, first, second⟩ := bind_eq_ok popped
    obtain ⟨rfl, _⟩ := look_eq_ok second
    cases done
    obtain ⟨state, shared⟩ := pop_eq_ok first
    refine ⟨state, shared, ?_⟩
    rintro rfl
    cases timed
  · cases limited
    exact ⟨rfl, rfl, fun _ => ⟨rfl, rfl⟩⟩

theorem fetched_heap (session : Session) (op : Opcode) (next : UInt32) :
    (session.fetched op next).shared.heap = session.shared.heap := by
  simp only [Session.fetched, Shared.log_heap]

/-- A wait begins with a future on top of the stack. -/
theorem ask_eq_ok {op : Opcode} {found : Option Int64}
    (asked : ask op session = .ok (word, found) after) :
    after.executor.state = session.executor.state ∧ after.shared.heap = session.shared.heap ∧
      (∃ rest : Array Word, after.executor.eval.items = rest.push word) ∧
      ∃ result, session.shared.heap.outcome word = .ok result := by
  unfold ask at asked
  obtain ⟨_, first, begun, asked⟩ := bind_eq_ok asked
  rw [begin_eq] at begun
  cases begun
  obtain ⟨known, second, limited, asked⟩ := bind_eq_ok asked
  obtain ⟨top, third, peeked, asked⟩ := bind_eq_ok asked
  obtain ⟨result, fourth, looked, asked⟩ := bind_eq_ok asked
  cases asked
  obtain ⟨state, shared, _⟩ := limit_eq_ok limited
  obtain ⟨rfl, rest, items⟩ := peek_eq_ok peeked
  obtain ⟨rfl, live⟩ := look_eq_ok looked
  have heap : after.shared.heap = session.shared.heap := by
    rw [shared, fetched_heap]
  rw [heap] at live
  exact ⟨state, heap, ⟨rest, items⟩, result, live⟩

/-- A wait without a limit needs nothing but a future on top of the stack. -/
theorem ask_await {result : Option (Word × ExecState)}
    (items : session.executor.eval.items = rest.push word)
    (live : session.shared.heap.outcome word = .ok result) :
    ask .await session =
      .ok (word, none)
        (session.fetched .await (session.executor.ip + UInt32.ofNat Opcode.await.size)) := by
  generalize reached : session.fetched .await
    (session.executor.ip + UInt32.ofNat Opcode.await.size) = fetched
  have top : peek fetched = .ok word fetched := by
    rw [← reached]
    simp [peek, peekBehind, EvalStack.peekBehind, Session.fetched, items]
  have found : fetched.shared.heap.outcome word = .ok result := by
    rw [← reached, fetched_heap]
    exact live
  unfold ask
  rw [exec_bind (begin_eq .await session), reached]
  rw [exec_bind (show limit .await fetched = .ok none fetched from rfl), exec_bind top]
  rw [exec_bind (Evaluation.exec_look (·.outcome word) found)]
  rfl

theorem push_withOperands {top : Word} (items : session.executor.eval.items = rest.push top)
    (bounded : session.executor.eval.items.size ≤ session.executor.eval.capacity) (word : Word) :
    push word (withOperands session rest) = .ok () (withOperands session (rest.push word)) := by
  have room : rest.size < session.executor.eval.capacity := by
    rw [items, Array.size_push] at bounded
    exact bounded
  simp [push, modifyExecutor, Executor.push, withOperands, room]

/-- A waiter that runs takes the outcome of the future on top of its stack. -/
theorem replace_eq (items : session.executor.eval.items = rest.push word)
    (running : session.executor.state = .running)
    (bounded : session.executor.eval.items.size ≤ session.executor.eval.capacity)
    (outcome : Word × ExecState) :
    ∃ executor : Executor, replace outcome session = .ok () { session with executor } ∧
      executor.id = session.executor.id ∧
      (outcome.2 = .success →
        executor.eval.items = rest.push outcome.1 ∧ executor.state = .running) ∧
      (outcome.2 ≠ .success → executor.eval.items = rest ∧ executor.state = outcome.2) := by
  unfold replace
  rw [exec_bind (exec_pop items)]
  by_cases succeeded : outcome.2 = .success
  · rw [if_pos (by rw [succeeded]; rfl), push_withOperands items bounded]
    exact ⟨_, rfl, rfl, fun _ => ⟨rfl, running⟩, fun other => absurd succeeded other⟩
  · rw [if_neg (by simpa using succeeded)]
    refine ⟨(withOperands session rest).executor.fail outcome.2, rfl, ?_,
      fun other => absurd other succeeded, fun _ => ?_⟩
    · rw [Executor.fail_eq]
      rfl
    · rw [Executor.fail_eq]
      exact ⟨rfl, if_pos running⟩

theorem answer_eq (items : session.executor.eval.items = rest.push word)
    (running : session.executor.state = .running)
    (bounded : session.executor.eval.items.size ≤ session.executor.eval.capacity) (done : Bool) :
    ∃ executor : Executor, answer done session = .ok () { session with executor } ∧
      executor.id = session.executor.id ∧
      executor.eval.items = rest.push (.ofBool done) ∧ executor.state = .running := by
  unfold answer
  rw [exec_bind (exec_pop items)]
  exact ⟨_, push_withOperands items bounded (.ofBool done), rfl, rfl, running⟩

end Exec

/-! ## What is known of a strand -/

def Strand.Phase.joining? : Strand.Phase → Option Joining
  | .looking wait => some wait
  | .pausing wait => some wait
  | .waiting wait => some wait
  | .woken wait => some wait
  | .joining wait => some wait
  | _ => none

/-- Whether a strand has handed over its result. -/
def Strand.Phase.isOver : Strand.Phase → Bool
  | .closing => true
  | .leaving => true
  | _ => false

structure Strand.Waits (ensemble : Ensemble) (strand : Strand) (joining : Joining) : Prop where
  top : ∃ rest : Array Word, strand.executor.eval.items = rest.push joining.future
  live : ∃ result, ensemble.shared.heap.outcome joining.future = .ok result
  maker : Event.maker? joining.future ensemble.history = some joining.child
  running : strand.phase = .looking joining ∨ strand.phase = .joining joining →
    strand.executor.state = .running
  woken : strand.phase = .woken joining → joining.limit = none →
    joining.child ∈ ensemble.done ∨ strand.cancelled = true
  ready : strand.phase = .joining joining → joining.limit = none →
    joining.child ∈ ensemble.done

/-- A strand whose own future and whose wait agree with the history. -/
structure Strand.Accounted (ensemble : Ensemble) (strand : Strand) : Prop where
  started : strand.executor.id ≤ ensemble.shared.started
  promised : ∀ future, strand.executor.promise = some future →
    (∃ result, ensemble.shared.heap.outcome future = .ok result) ∧
      Event.maker? future ensemble.history = some strand.executor.id
  unpromised : strand.executor.promise = none →
    ∀ future, .forked strand.executor.id future ∉ ensemble.history
  ahead : strand.phase.isOver = false →
    ∀ value state, .completed strand.executor.id value state ∉ ensemble.history
  ended : strand.phase.isOver = true →
    ∃ value state, .completed strand.executor.id value state ∈ ensemble.history
  waits : ∀ joining, strand.phase.joining? = some joining → strand.Waits ensemble joining

namespace Ensemble

/-- What a turn of others leaves of what is known of a strand. -/
structure Later (before after : Ensemble) (strand : Strand) : Prop where
  started : before.shared.started ≤ after.shared.started
  live : ∀ word ∈ strand.executor.roots, ∀ result, before.shared.heap.outcome word = .ok result →
    ∃ result, after.shared.heap.outcome word = .ok result
  maker : ∀ word result, before.shared.heap.outcome word = .ok result →
    Event.maker? word after.history = Event.maker? word before.history
  forked : ∀ future, .forked strand.executor.id future ∈ after.history →
    .forked strand.executor.id future ∈ before.history
  completed : ∀ value state, .completed strand.executor.id value state ∈ after.history ↔
    .completed strand.executor.id value state ∈ before.history
  done : ∀ child ∈ before.done, child ∈ after.done

variable {ensemble after : Ensemble} {strand : Strand}

theorem Later.of_same (futures : ensemble.shared.heap.SameFutures after.shared.heap)
    (started : ensemble.shared.started ≤ after.shared.started)
    (history : after.history = ensemble.history) (done : after.done = ensemble.done) :
    ensemble.Later after strand where
  started := started
  live := fun word _ result live => ⟨result, (futures word result).2 live⟩
  maker := fun _ _ _ => by rw [history]
  forked := fun _ forked => history ▸ forked
  completed := fun _ _ => by rw [history]
  done := fun _ member => done ▸ member

end Ensemble

namespace Strand

variable {ensemble after : Ensemble} {strand changed : Strand}

theorem mem_roots_of_top {joining : Joining} {executor : Executor}
    (top : ∃ rest : Array Word, executor.eval.items = rest.push joining.future) :
    joining.future ∈ executor.roots := by
  obtain ⟨rest, items⟩ := top
  refine List.mem_append_left _ (List.mem_append_left _ (Array.mem_toList_iff.2 ?_))
  rw [items]
  exact Array.mem_push_self

theorem mem_roots_of_promise {future : Word} {executor : Executor}
    (promise : executor.promise = some future) : future ∈ executor.roots := by
  refine List.mem_append_right _ ?_
  rw [promise]
  exact List.mem_cons_self

theorem Accounted.later (accounted : strand.Accounted ensemble)
    (later : ensemble.Later after strand) : strand.Accounted after := by
  constructor
  case started => exact accounted.started.trans later.started
  case promised =>
    intro future promise
    obtain ⟨⟨result, live⟩, maker⟩ := accounted.promised future promise
    exact ⟨later.live future (mem_roots_of_promise promise) result live,
      (later.maker future result live).trans maker⟩
  case unpromised =>
    exact fun promise future forked =>
      accounted.unpromised promise future (later.forked future forked)
  case ahead =>
    exact fun ahead value state completed =>
      accounted.ahead ahead value state ((later.completed value state).1 completed)
  case ended =>
    intro ended
    obtain ⟨value, state, completed⟩ := accounted.ended ended
    exact ⟨value, state, (later.completed value state).2 completed⟩
  case waits =>
    intro joining waits
    obtain ⟨top, ⟨result, live⟩, maker, running, woken, ready⟩ := accounted.waits joining waits
    exact ⟨top, later.live _ (mem_roots_of_top top) result live,
      (later.maker _ result live).trans maker, running,
      fun phase limit => (woken phase limit).imp_left (later.done _),
      fun phase limit => later.done _ (ready phase limit)⟩

/-- A strand goes on to something else before its result is handed over. -/
theorem Accounted.change (accounted : strand.Accounted ensemble)
    (id : changed.executor.id = strand.executor.id)
    (promise : changed.executor.promise = strand.executor.promise)
    (isOver : changed.phase.isOver = strand.phase.isOver)
    (waits : ∀ joining, changed.phase.joining? = some joining → changed.Waits ensemble joining) :
    changed.Accounted ensemble := by
  constructor
  case waits => exact waits
  all_goals rw [id]
  case started => exact accounted.started
  case promised =>
    rw [promise]
    exact accounted.promised
  case unpromised =>
    rw [promise]
    exact accounted.unpromised
  case ahead =>
    rw [isOver]
    exact accounted.ahead
  case ended =>
    rw [isOver]
    exact accounted.ended

end Strand

/-! ## What is known of an ensemble -/

namespace Ensemble

variable {joining : Joining}

/-- An ensemble whose history agrees with its futures and its strands. -/
structure Ledger (ensemble : Ensemble) : Prop where
  accounts : Accounts ensemble.history ensemble.shared.started ensemble.shared.heap
  strands : ∀ strand ∈ ensemble.strands, strand.Accounted ensemble
  distinct : (ensemble.strands.map (·.executor.id)).Nodup
  done : ∀ child ∈ ensemble.done, ∃ value state, .completed child value state ∈ ensemble.history
  /-- An executor stays until it has handed over its result. -/
  registered : ∀ child future, .forked child future ∈ ensemble.history →
    child ∈ ensemble.strands.map (·.executor.id) ∨
      ∃ value state, .completed child value state ∈ ensemble.history

variable {ensemble after : Ensemble} {position : Nat} {strand changed : Strand}

/-- A strand becomes another, and the others know what they knew. -/
theorem Ledger.replace (ledger : ensemble.Ledger)
    (found : ensemble.strands[position]? = some strand)
    (strands : after.strands = ensemble.strands.set position changed)
    (id : changed.executor.id = strand.executor.id)
    (accounts : Accounts after.history after.shared.started after.shared.heap)
    (own : changed.Accounted after)
    (others : ∀ other ∈ ensemble.strands, other.executor.id ≠ strand.executor.id →
      ensemble.Later after other)
    (done : ∀ child ∈ after.done, ∃ value state, .completed child value state ∈ after.history)
    (forked : ∀ child future, .forked child future ∈ after.history →
      .forked child future ∈ ensemble.history)
    (completed : ∀ child value state, .completed child value state ∈ ensemble.history →
      .completed child value state ∈ after.history) :
    after.Ledger := by
  have names := @map_set_of_eq _ _ _ _ _ changed (fun strand : Strand => strand.executor.id)
    found id
  refine ⟨accounts, fun other member => ?_, ?_, done, fun child future made => ?_⟩
  · rw [strands] at member
    rcases mem_set_of_nodup ledger.distinct found member with rfl | ⟨before, different⟩
    · exact own
    · exact (ledger.strands other before).later (others other before different)
  · rw [strands, names]
    exact ledger.distinct
  · rw [strands, names]
    refine (ledger.registered child future (forked child future made)).imp_right ?_
    rintro ⟨value, state, member⟩
    exact ⟨value, state, completed child value state member⟩

theorem Ledger.same (ledger : ensemble.Ledger)
    (futures : ensemble.shared.heap.SameFutures after.shared.heap)
    (started : after.shared.started = ensemble.shared.started)
    (strands : after.strands = ensemble.strands) (history : after.history = ensemble.history)
    (done : after.done = ensemble.done) : after.Ledger := by
  refine ⟨?_, fun strand member => ?_, ?_, ?_, ?_⟩
  · rw [history, started]
    exact ledger.accounts.withHeap fun word result => (futures word result).1
  · rw [strands] at member
    exact (ledger.strands strand member).later (.of_same futures started.ge history done)
  · rw [strands]
    exact ledger.distinct
  · rw [history, done]
    exact ledger.done
  · rw [history, strands]
    exact ledger.registered

/-- Something is recorded that is neither a start nor a result. -/
theorem Ledger.remark (ledger : ensemble.Ledger) {event : Event} (remark : event.IsRemark)
    (follows : event.Follows ensemble.history) :
    { ensemble with history := event :: ensemble.history }.Ledger := by
  constructor
  case accounts => exact ledger.accounts.remark remark follows
  case strands =>
    intro strand member
    refine (ledger.strands strand member).later
      ⟨Nat.le_refl _, fun _ _ result live => ⟨result, live⟩, fun word _ _ => remark.maker? word _,
        fun _ => remark.forked.1, fun _ _ => remark.completed, fun _ => id⟩
  case distinct => exact ledger.distinct
  case done =>
    intro child member
    obtain ⟨value, state, completed⟩ := ledger.done child member
    exact ⟨value, state, remark.completed.2 completed⟩
  case registered =>
    intro child future forked
    refine (ledger.registered child future (remark.forked.1 forked)).imp_right ?_
    rintro ⟨value, state, completed⟩
    exact ⟨value, state, remark.completed.2 completed⟩

/-! ## Turns in which a strand changes only itself -/

theorem Ledger.enter (ledger : ensemble.Ledger) (ip : UInt32) : (ensemble.enter ip).Ledger := by
  have fresh : ∀ future, .forked (ensemble.shared.started + 1) future ∉ ensemble.history := by
    intro future forked
    exact absurd (ledger.accounts.started _ future forked) (Nat.not_succ_le_self _)
  constructor
  case accounts => exact ledger.accounts.withStarted (Nat.le_succ _)
  case strands =>
    intro strand member
    rcases List.mem_append.1 member with before | started
    · exact (ledger.strands strand before).later (.of_same (.refl _) (Nat.le_succ _) rfl rfl)
    · rw [List.mem_singleton.1 started]
      refine ⟨Nat.le_refl _, fun _ nothing => (nomatch nothing), fun _ => fresh,
        fun _ value state completed => ?_, fun nothing => (nomatch nothing),
        fun _ nothing => (nomatch nothing)⟩
      obtain ⟨future, forked⟩ := ledger.accounts.lawful.forked_of_completed completed
      exact fresh future forked
  case distinct =>
    unfold Ensemble.enter
    rw [List.map_append]
    refine List.nodup_append.2 ⟨ledger.distinct, List.nodup_singleton _, ?_⟩
    intro id listed other started
    rw [List.mem_singleton.1 started]
    rintro rfl
    obtain ⟨strand, member, same⟩ := List.mem_map.1 listed
    have below := (ledger.strands strand member).started
    rw [same] at below
    exact absurd below (Nat.not_succ_le_self _)
  case done => exact ledger.done
  case registered =>
    intro child future forked
    refine (ledger.registered child future forked).imp_left fun member => ?_
    unfold Ensemble.enter
    rw [List.map_append]
    exact List.mem_append_left _ member

/-- One that waits to the end goes on at once only if what it waits for is done. -/
theorem looked_cases (ensemble : Ensemble) (joining : Joining) :
    ensemble.looked joining = .pausing joining ∨
      ensemble.looked joining = .joining joining ∧
        (joining.limit = none → joining.child ∈ ensemble.done) := by
  obtain ⟨future, child, limit⟩ := joining
  unfold looked
  dsimp only
  by_cases done : child ∈ ensemble.done
  · refine Or.inr ⟨if_pos ?_, fun _ => done⟩
    rw [List.contains_iff_mem.2 done, Bool.true_or]
  · cases limit with
    | none => exact Or.inl (if_neg (by simpa using done))
    | some limit =>
      by_cases waits : 0 < limit
      · exact Or.inl (if_neg (by simpa [waits] using done))
      · exact Or.inr ⟨if_pos (by simp [waits]), nofun⟩

/-- A strand that waits keeps to its wait when it looks, pauses and wakes up. It goes on to take an
outcome only if there is one, or if its time may be up. -/
theorem Marks.waits {marked : Strand} (marks : ensemble.Marks strand marked)
    (accounted : strand.Accounted ensemble) :
    marked.phase.isOver = strand.phase.isOver ∧
      ∀ joining, marked.phase.joining? = some joining → marked.Waits ensemble joining := by
  cases marks with
  | stop free =>
    rw [free]
    exact ⟨rfl, fun _ nothing => nomatch nothing⟩
  | abort =>
    refine ⟨rfl, fun joining waits => ?_⟩
    obtain ⟨top, live, maker, running, woken, ready⟩ := accounted.waits joining waits
    exact ⟨top, live, maker, running, woken, ready⟩
  | cancel =>
    refine ⟨rfl, fun joining waits => ?_⟩
    obtain ⟨top, live, maker, running, _, ready⟩ := accounted.waits joining waits
    exact ⟨top, live, maker, running, fun _ _ => Or.inr rfl, ready⟩
  | @look wait looking =>
    have known : strand.phase.joining? = some wait := by rw [looking]; rfl
    obtain ⟨top, live, maker, running, _, _⟩ := accounted.waits wait known
    dsimp only
    rcases ensemble.looked_cases wait with pauses | ⟨goesOn, done⟩
    · rw [looking, pauses]
      refine ⟨rfl, ?_⟩
      rintro _ ⟨⟩
      exact ⟨top, live, maker, nofun, nofun, nofun⟩
    · rw [looking, goesOn]
      refine ⟨rfl, ?_⟩
      rintro _ ⟨⟩
      exact ⟨top, live, maker, fun _ => running (Or.inl looking), nofun, fun _ => done⟩
  | @pause wait _ pausing =>
    have known : strand.phase.joining? = some wait := by rw [pausing]; rfl
    obtain ⟨top, live, maker, _, _, _⟩ := accounted.waits wait known
    rw [pausing]
    refine ⟨rfl, ?_⟩
    rintro _ ⟨⟩
    exact ⟨top, live, maker, nofun, nofun, nofun⟩
  | @wake wait waiting ends =>
    have known : strand.phase.joining? = some wait := by rw [waiting]; rfl
    obtain ⟨top, live, maker, _, _, _⟩ := accounted.waits wait known
    rw [waiting]
    refine ⟨rfl, ?_⟩
    rintro _ ⟨⟩
    refine ⟨top, live, maker, nofun, fun _ unlimited => ?_, nofun⟩
    unfold Ensemble.wakes at ends
    rw [unlimited] at ends
    simpa using ends
  | give woken =>
    rw [woken]
    exact ⟨rfl, fun _ nothing => nomatch nothing⟩
  | @resume wait woken goesOn =>
    have known : strand.phase.joining? = some wait := by rw [woken]; rfl
    obtain ⟨top, live, maker, _, ends, _⟩ := accounted.waits wait known
    rw [woken]
    refine ⟨rfl, ?_⟩
    rintro _ ⟨⟩
    refine ⟨top, live, maker, fun _ => rfl, nofun, fun _ unlimited => ?_⟩
    refine (ends woken unlimited).resolve_right fun cancelled => ?_
    rw [cancelled, Bool.or_true] at goesOn
    cases goesOn

theorem Ledger.mark (ledger : ensemble.Ledger) (found : ensemble.strands[position]? = some strand)
    (marks : ensemble.Marks strand changed) : (ensemble.turnTo position changed).Ledger := by
  have accounted := ledger.strands strand (List.mem_of_getElem? found)
  have later : ∀ other : Strand, ensemble.Later (ensemble.turnTo position changed) other :=
    fun _ => .of_same (.refl _) (Nat.le_refl _) rfl rfl
  obtain ⟨isOver, waits⟩ := marks.waits accounted
  have id : changed.executor.id = strand.executor.id ∧
      changed.executor.promise = strand.executor.promise := by
    obtain ⟨state, wait, same⟩ := marks.executor
    rw [same]
    exact ⟨rfl, rfl⟩
  refine ledger.replace found rfl id.1 ledger.accounts ?_ (fun other _ _ => later other)
    ledger.done (fun _ _ forked => forked) fun _ _ _ completed => completed
  refine (accounted.later (later strand)).change id.1 id.2 isOver fun joining waiting => ?_
  obtain ⟨top, live, maker, running, woken, ready⟩ := waits joining waiting
  exact ⟨top, live, maker, running, woken, ready⟩

theorem Ledger.complete (ledger : ensemble.Ledger)
    (found : ensemble.strands[position]? = some strand) (free : strand.phase = .free)
    (terminal : strand.executor.state.isTerminal = true) {promise : Word}
    (promised : strand.executor.promise = some promise) :
    (ensemble.complete position strand promise).Ledger := by
  have accounted := ledger.strands strand (List.mem_of_getElem? found)
  obtain ⟨⟨result, live⟩, maker⟩ := accounted.promised promise promised
  have ahead := accounted.ahead (by rw [free]; rfl)
  have accounts : Accounts (ensemble.complete position strand promise).history
      ensemble.shared.started (ensemble.complete position strand promise).shared.heap :=
    ledger.accounts.complete live maker terminal ahead
  have kept : ∀ word result, ensemble.shared.heap.outcome word = .ok result →
      ∃ result, (ensemble.complete position strand promise).shared.heap.outcome word =
        .ok result := by
    intro word result before
    by_cases same : word = promise
    · exact ⟨_, (Heap.outcome_setPayload live _).2 (Or.inl ⟨same, rfl⟩)⟩
    · exact ⟨result, (Heap.outcome_setPayload live _).2 (Or.inr ⟨same, before⟩)⟩
  refine ledger.replace found rfl rfl accounts ?_ (fun other _ different => ?_) ?_ ?_ ?_
  · refine ⟨accounted.started, fun future same => ?_, fun nobody => ?_, nofun, fun _ => ?_, nofun⟩
    · obtain ⟨⟨known, held⟩, made⟩ := accounted.promised future same
      exact ⟨kept future known held, made⟩
    · rw [promised] at nobody
      cases nobody
    · exact ⟨_, _, List.mem_cons_self⟩
  · refine ⟨Nat.le_refl _, fun word _ => kept word, fun _ _ _ => rfl, fun future forked => ?_,
      fun value state => ⟨fun completed => ?_, List.mem_cons_of_mem _⟩, fun _ member => member⟩
    · exact (List.mem_cons.1 forked).resolve_left nofun
    · refine (List.mem_cons.1 completed).resolve_left fun same => ?_
      exact different (Event.completed.inj same).1
  · intro child member
    obtain ⟨value, state, completed⟩ := ledger.done child member
    exact ⟨value, state, List.mem_cons_of_mem _ completed⟩
  · exact fun _ _ forked => (List.mem_cons.1 forked).resolve_left nofun
  · exact fun _ _ _ => List.mem_cons_of_mem _

theorem Ledger.close (ledger : ensemble.Ledger) (found : ensemble.strands[position]? = some strand)
    (closing : strand.phase = .closing) : (ensemble.close position strand).Ledger := by
  have accounted := ledger.strands strand (List.mem_of_getElem? found)
  have later : ∀ other : Strand, ensemble.Later (ensemble.close position strand) other :=
    fun _ => ⟨Nat.le_refl _, fun _ _ result live => ⟨result, live⟩, fun _ _ _ => rfl,
      fun _ forked => forked, fun _ _ => Iff.rfl, fun _ => List.mem_cons_of_mem _⟩
  refine ledger.replace found rfl rfl ledger.accounts ?_ (fun other _ _ => later other) ?_
    (fun _ _ forked => forked) fun _ _ _ completed => completed
  · refine (accounted.later (later strand)).change rfl rfl ?_ nofun
    rw [closing]
    rfl
  · intro child member
    rcases List.mem_cons.1 member with rfl | before
    · exact accounted.ended (by rw [closing]; rfl)
    · exact ledger.done child before

theorem Ledger.leave (ledger : ensemble.Ledger) (found : ensemble.strands[position]? = some strand)
    (ready : strand.phase = .leaving ∨ strand.phase = .free ∧ strand.executor.promise = none) :
    (ensemble.leave position strand).Ledger := by
  have accounted := ledger.strands strand (List.mem_of_getElem? found)
  have follows : (Event.left strand.executor.id).Follows ensemble.history := by
    rintro ⟨future, forked⟩
    rcases ready with leaving | ⟨_, alone⟩
    · exact accounted.ended (by rw [leaving]; rfl)
    · exact absurd forked (accounted.unpromised alone future)
  have noted : { ensemble with history := .left strand.executor.id :: ensemble.history }.Ledger :=
    ledger.remark trivial follows
  have remark : (Event.left strand.executor.id).IsRemark := trivial
  refine ⟨noted.accounts, fun other member => ?_, ?_, noted.done, fun child future forked => ?_⟩
  · refine (noted.strands other (List.mem_of_mem_eraseIdx member)).later ?_
    exact .of_same (.refl _) (Nat.le_refl _) rfl rfl
  · exact ledger.distinct.sublist ((List.eraseIdx_sublist _ _).map _)
  · rcases noted.registered child future forked with listed | completed
    · by_cases same : child = strand.executor.id
      · obtain ⟨value, state, completed⟩ := follows ⟨future, same ▸ remark.forked.1 forked⟩
        exact Or.inr ⟨value, state, same ▸ remark.completed.2 completed⟩
      · obtain ⟨other, member, rfl⟩ := List.mem_map.1 listed
        refine Or.inl (List.mem_map_of_mem ((mem_eraseIdx_or found member).resolve_left ?_))
        rintro rfl
        exact same rfl
    · exact Or.inr completed

/-! ## Turns of the collector and of the end -/

theorem Ledger.sweep (ledger : ensemble.Ledger) (safe : ensemble.Safe) : ensemble.sweep.Ledger := by
  have wellFormed := safe.intact.wellFormed
  have futures : ∀ word result, ensemble.sweep.shared.heap.outcome word = .ok result ↔
      ensemble.shared.heap.outcome word = .ok result ∧
        ensemble.shared.heap.Reaches ensemble.roots word.toHandle := by
    intro word result
    rw [sweep_heap]
    exact Heap.outcome_collect wellFormed _
  have started : ensemble.sweep.shared.started = ensemble.shared.started :=
    sweep_keeps (fun shared line => by unfold Shared.log; split <;> rfl) ensemble
  refine ⟨?_, fun strand member => ?_, ledger.distinct, ledger.done, ledger.registered⟩
  · rw [started]
    exact ledger.accounts.withHeap fun word result live => ((futures word result).1 live).1
  · refine (ledger.strands strand member).later ⟨started.ge, fun word root result live => ?_,
      fun _ _ _ => rfl, fun _ forked => forked, fun _ _ => Iff.rfl, fun _ done => done⟩
    refine ⟨result, (futures word result).2 ⟨live, word, .root (mem_roots member root), ?_, rfl,
      rfl⟩⟩
    exact (Heap.outcome_eq_ok.1 live).1

theorem Ledger.visit (ledger : ensemble.Ledger) (word : Word) (rest : List Word) :
    (ensemble.visit word rest).Ledger := by
  rcases ensemble.visit_cases word rest with ⟨_, same⟩ | ⟨stream, read, _, same⟩
  · rw [same]
    exact ledger.same (.refl _) rfl rfl rfl rfl
  · rw [same]
    obtain ⟨object, found, holds⟩ := Exec.exists_stream read
    refine ledger.same ?_ rfl rfl rfl rfl
    refine Heap.sameFutures_modify (Heap.lookup?_index_ne_zero found)
      (Heap.setPayload_slots _ _ _) fun slot other slotFound held result => ?_
    obtain rfl := Heap.object_of_lookup? found slotFound held
    rw [holds]
    exact ⟨nofun, nofun⟩

/-! ## Turns in which a strand carries something out -/

theorem forked_mem_forks {shared : Shared} {child : Nat} {future : Word} :
    .forked child future ∈ shared.forks ↔
      ∃ executor ∈ shared.spawned, executor.id = child ∧ executor.promise = some future := by
  unfold Shared.forks
  rw [List.mem_filterMap]
  refine exists_congr fun executor => and_congr_right fun _ => ?_
  cases executor.promise with
  | none => exact ⟨nofun, fun made => nomatch made.2⟩
  | some promise =>
    rw [Option.map_some, Option.some_inj, Option.some_inj, Event.forked.injEq]

theorem completed_notMem_forks (shared : Shared) (child : Nat) (value : Word) (state : ExecState) :
    .completed child value state ∉ shared.forks := by
  unfold Shared.forks
  intro member
  obtain ⟨executor, _, made⟩ := List.mem_filterMap.1 member
  obtain ⟨_, _, same⟩ := Option.map_eq_some_iff.1 made
  cases same

section Advance

variable {session : Session}

theorem completed_mem_advance {child : Nat} {value : Word} {state : ExecState} :
    .completed child value state ∈ (ensemble.advance position changed session.shared []).history ↔
      .completed child value state ∈ ensemble.history := by
  change _ ∈ session.shared.forks ++ ensemble.history ↔ _
  rw [List.mem_append]
  exact or_iff_right (completed_notMem_forks _ _ _ _)

theorem Ledger.later_advance (ledger : ensemble.Ledger)
    (own : Session.Ledger ensemble.history (ensemble.session strand) session) {other : Strand}
    (member : other ∈ ensemble.strands) :
    ensemble.Later (ensemble.advance position changed session.shared []) other where
  started := own.started
  live := fun word _ result live => ⟨result, (own.kept word result live).1⟩
  maker := fun word result live => (own.kept word result live).2
  forked := by
    intro future forked
    change _ ∈ session.shared.forks ++ ensemble.history at forked
    refine (List.mem_append.1 forked).resolve_left fun new => ?_
    obtain ⟨child, started, name, _⟩ := forked_mem_forks.1 new
    have above := (own.spawned child started).1
    have below := (ledger.strands other member).started
    rw [name] at above
    exact absurd (above.trans_le below) (Nat.lt_irrefl _)
  completed := fun _ _ => completed_mem_advance
  done := fun _ known => known

theorem Ledger.accounted_started (ledger : ensemble.Ledger)
    (own : Session.Ledger ensemble.history (ensemble.session strand) session) {child : Executor}
    (started : child ∈ session.shared.spawned) :
    Strand.Accounted (ensemble.advance position changed session.shared [])
      { executor := child } := by
  obtain ⟨above, below, future, promise, live, maker⟩ := own.spawned child started
  refine ⟨below, fun other same => ?_, fun nobody => ?_, fun _ value state ended => ?_,
    fun nothing => (nomatch nothing), fun _ nothing => (nomatch nothing)⟩
  · have named : child.promise = some other := same
    rw [promise] at named
    cases named
    exact ⟨live, maker⟩
  · have named : child.promise = none := nobody
    rw [promise] at named
    cases named
  · obtain ⟨other, forked⟩ := ledger.accounts.lawful.forked_of_completed
      (completed_mem_advance.1 ended)
    exact absurd (above.trans_le (ledger.accounts.started _ other forked)) (Nat.lt_irrefl _)

theorem Ledger.advance (ledger : ensemble.Ledger)
    (found : ensemble.strands[position]? = some strand)
    (own : Session.Ledger ensemble.history (ensemble.session strand) session)
    (same : changed.executor = session.executor)
    (isOver : changed.phase.isOver = strand.phase.isOver)
    (waits : ∀ joining, changed.phase.joining? = some joining →
      changed.Waits (ensemble.advance position changed session.shared []) joining) :
    (ensemble.advance position changed session.shared []).Ledger := by
  have listed := List.mem_of_getElem? found
  have id : changed.executor.id = strand.executor.id := by
    rw [same]
    exact own.id
  have promise : changed.executor.promise = strand.executor.promise := by
    rw [same]
    exact own.promise
  have names : (ensemble.advance position changed session.shared []).strands.map (·.executor.id) =
      ensemble.strands.map (·.executor.id) ++ (session.shared.spawned.map (·.id)).reverse := by
    change (ensemble.strands.set position changed ++ session.shared.spawned.reverse.map
      fun executor => ({ executor } : Strand)).map (·.executor.id) = _
    rw [List.map_append, map_set_of_eq found id, List.map_map, ← List.map_reverse]
    rfl
  refine ⟨own.accounts, fun other member => ?_, ?_, fun child known => ?_,
    fun child future forked => ?_⟩
  · rcases List.mem_append.1 member with kept | started
    · rcases mem_set_of_nodup ledger.distinct found kept with rfl | ⟨before, _⟩
      · refine Strand.Accounted.change ?_ id promise isOver waits
        exact (ledger.strands strand listed).later (ledger.later_advance own listed)
      · exact (ledger.strands other before).later (ledger.later_advance own before)
    · obtain ⟨child, spawned, rfl⟩ := List.mem_map.1 started
      exact ledger.accounted_started own (List.mem_reverse.1 spawned)
  · rw [names]
    refine List.nodup_append.2 ⟨ledger.distinct, List.nodup_reverse.2 own.distinct,
      fun id listed other started => ?_⟩
    obtain ⟨before, member, rfl⟩ := List.mem_map.1 listed
    obtain ⟨child, spawned, rfl⟩ := List.mem_map.1 (List.mem_reverse.1 started)
    have below := (ledger.strands before member).started
    have above := (own.spawned child spawned).1
    exact (below.trans_lt above).ne
  · obtain ⟨value, state, ended⟩ := ledger.done child known
    exact ⟨value, state, completed_mem_advance.2 ended⟩
  · change _ ∈ session.shared.forks ++ ensemble.history at forked
    rw [names]
    rcases List.mem_append.1 forked with new | old
    · obtain ⟨executor, started, name, _⟩ := forked_mem_forks.1 new
      exact Or.inl (List.mem_append_right _ (List.mem_reverse.2 (List.mem_map.2
        ⟨executor, started, name⟩)))
    · refine (ledger.registered child future old).imp (List.mem_append_left _) ?_
      rintro ⟨value, state, ended⟩
      exact ⟨value, state, completed_mem_advance.2 ended⟩

end Advance

/-- What asking comes to: nothing, or a wait for the future on top of the stack. -/
theorem asked_cases (ensemble : Ensemble) (strand : Strand) (op : Opcode) :
    ensemble.asked strand op = .free ∨
      ∃ future limit session,
        Exec.ask op (ensemble.session strand) = .ok (future, limit) session ∧
        (ensemble.session strand).carry (Exec.asking op) = session ∧
        ensemble.asked strand op =
          .looking ⟨future, (Event.maker? future ensemble.history).getD 0, limit⟩ := by
  unfold asked
  cases found : Exec.ask op (ensemble.session strand) with
  | error fault session => exact Or.inl rfl
  | ok answer session =>
    obtain ⟨future, limit⟩ := answer
    refine Or.inr ⟨future, limit, session, rfl, ?_, rfl⟩
    unfold Session.carry Exec.asking
    rw [Evaluation.exec_bind found]
    rfl

theorem Ledger.waits_asked (ledger : ensemble.Ledger) (running : strand.executor.state = .running)
    {op : Opcode} (own : Session.Ledger ensemble.history (ensemble.session strand)
      ((ensemble.session strand).carry (Exec.asking op)))
    (waits : (ensemble.asked strand op).joining? = some joining) :
    Strand.Waits
      (ensemble.perform position { strand with phase := ensemble.asked strand op }
        (Exec.asking op) fun _ => [])
      { strand with
        phase := ensemble.asked strand op
        executor := ((ensemble.session strand).carry (Exec.asking op)).executor }
      joining := by
  rcases ensemble.asked_cases strand op with free | ⟨future, limit, session, asked, same, looking⟩
  · rw [free] at waits
    cases waits
  · obtain ⟨state, _, top, result, live⟩ := Exec.ask_eq_ok asked
    obtain ⟨child, maker, _⟩ := ledger.accounts.made future result live
    obtain ⟨now, still⟩ := own.kept future result live
    rw [looking, maker] at waits
    cases waits
    constructor
    case top =>
      rw [same]
      exact top
    case live => exact ⟨result, now⟩
    case maker => exact still.trans maker
    case running =>
      rw [same]
      exact fun _ => state.trans running
    case woken =>
      rw [looking]
      exact nofun
    case ready =>
      rw [looking]
      exact nofun

variable {settings : Settings} {assembly : Assembly}

/-- A waiter that goes on finds the future it has waited for, and takes what is recorded of it. -/
theorem Ledger.follows_joined (ledger : ensemble.Ledger)
    (bounded : ensemble.Bounded assembly settings) (member : strand ∈ ensemble.strands)
    (phase : strand.phase = .joining joining) (unlimited : joining.limit = none) :
    ∃ executor : Executor,
      Exec.replace (ensemble.outcomeOf joining) (ensemble.session strand) =
        .ok () { ensemble.session strand with executor } ∧
      executor.id = strand.executor.id ∧
      (Event.joined joining (ensemble.outcomeOf joining) strand.executor.eval.items
        executor.eval.items executor.state).Follows ensemble.history := by
  have known : strand.phase.joining? = some joining := by rw [phase]; rfl
  obtain ⟨⟨rest, items⟩, ⟨result, live⟩, maker, running, _, ready⟩ :=
    (ledger.strands strand member).waits joining known
  obtain ⟨value, state, completed⟩ := ledger.done joining.child (ready phase unlimited)
  obtain rfl := ledger.accounts.outcome live maker completed
  have outcome : ensemble.outcomeOf joining = (value, state) := by
    unfold outcomeOf
    rw [live]
  have fits := (bounded.executors strand member).operands
  obtain ⟨executor, ran, id, taken, failed⟩ :=
    @Exec.replace_eq (ensemble.session strand) joining.future rest items (running (Or.inr phase))
      fits (value, state)
  rw [outcome]
  exact ⟨executor, ran, id, unlimited, maker, completed, rest, items, taken, failed⟩

theorem Ledger.follows_told (ledger : ensemble.Ledger)
    (bounded : ensemble.Bounded assembly settings) (member : strand ∈ ensemble.strands)
    (phase : strand.phase = .joining joining) (limited : joining.limit ≠ none) :
    ∃ executor : Executor,
      Exec.answer (ensemble.done.contains joining.child) (ensemble.session strand) =
        .ok () { ensemble.session strand with executor } ∧
      executor.id = strand.executor.id ∧ executor.state = .running ∧
      (Event.told joining (ensemble.done.contains joining.child) strand.executor.eval.items
        executor.eval.items).Follows ensemble.history := by
  have known : strand.phase.joining? = some joining := by rw [phase]; rfl
  obtain ⟨⟨rest, items⟩, _, maker, running, _, _⟩ :=
    (ledger.strands strand member).waits joining known
  have fits := (bounded.executors strand member).operands
  obtain ⟨executor, ran, id, answered, state⟩ :=
    @Exec.answer_eq (ensemble.session strand) joining.future rest items (running (Or.inr phase))
      fits (ensemble.done.contains joining.child)
  refine ⟨executor, ran, id, state, limited, maker, fun done => ?_, rest, items, answered⟩
  exact ledger.done joining.child (List.contains_iff_mem.1 done)

theorem perform_of_eq {executor : Executor} (nobody : ensemble.shared.spawned = [])
    {computation : Exec Unit}
    (ran : computation (ensemble.session strand) = .ok () { ensemble.session strand with executor })
    (phase : Strand.Phase) (events : Session → List Event) :
    ensemble.perform position { strand with phase } computation events =
      { ensemble with
        strands := ensemble.strands.set position { strand with phase, executor }
        history := events { ensemble.session strand with executor } ++ ensemble.history } := by
  have carried : (ensemble.session strand).carry computation =
      { ensemble.session strand with executor } := by
    unfold Session.carry
    rw [ran]
  have forks : ensemble.shared.forks = [] := by
    unfold Shared.forks
    rw [nobody]
    rfl
  have unchanged : { ensemble.shared with spawned := [] } = ensemble.shared := by
    rw [← nobody]
  have unfolded : ensemble.perform position { strand with phase } computation events =
      ensemble.advance position
        { strand with
          phase, executor := ((ensemble.session strand).carry computation).executor }
        ((ensemble.session strand).carry computation).shared
        (events ((ensemble.session strand).carry computation)) := rfl
  rw [unfolded, carried]
  unfold Ensemble.advance session
  dsimp only
  rw [forks, nobody, unchanged]
  simp only [List.reverse_nil, List.map_nil, List.append_nil, List.nil_append]

theorem Ledger.work (ledger : ensemble.Ledger) (safe : ensemble.Safe)
    (bounded : ensemble.Bounded assembly settings) (room : ensemble.hasRoom = true)
    {computation : Exec Unit} {phase : Strand.Phase} {events : Session → List Event}
    (found : ensemble.strands[position]? = some strand)
    (works : ensemble.Works strand computation phase events) :
    (ensemble.perform position { strand with phase } computation events).Ledger := by
  have member := List.mem_of_getElem? found
  have own : Session.Ledger ensemble.history (ensemble.session strand)
      ((ensemble.session strand).carry computation) :=
    works.effects.ledger safe.intact.wellFormed (safe.roomAfter room found works) safe.spawned
      ledger.accounts
  have quiet : phase.isOver = strand.phase.isOver →
      (∀ joining, phase.joining? = some joining →
        Strand.Waits (ensemble.perform position { strand with phase } computation fun _ => [])
          { strand with phase, executor := ((ensemble.session strand).carry computation).executor }
          joining) →
      (ensemble.perform position { strand with phase } computation fun _ => []).Ledger :=
    fun isOver waits => ledger.advance found own rfl isOver waits
  cases works with
  | issue free => exact quiet (by rw [free]) fun _ nothing => nomatch nothing
  | @ask op free running joins =>
    refine quiet ?_ fun joining => ledger.waits_asked running own
    rw [free]
    rcases ensemble.asked_cases strand op with same | ⟨_, _, _, _, _, same⟩
    · rw [same]
    · rw [same]
      rfl
  | settle free => exact quiet (by rw [free]) fun _ nothing => nomatch nothing
  | @join joining phase unlimited =>
    obtain ⟨executor, ran, _, follows⟩ := ledger.follows_joined bounded member phase unlimited
    have before := quiet (by rw [phase]; rfl) fun _ nothing => nomatch nothing
    rw [perform_of_eq safe.spawned ran] at before ⊢
    exact before.remark trivial follows
  | @tell joining phase limited =>
    obtain ⟨executor, ran, _, _, follows⟩ := ledger.follows_told bounded member phase limited
    have before := quiet (by rw [phase]; rfl) fun _ nothing => nomatch nothing
    rw [perform_of_eq safe.spawned ran] at before ⊢
    exact before.remark trivial follows

theorem Ledger.moves (ledger : ensemble.Ledger) (safe : ensemble.Safe)
    (bounded : ensemble.Bounded assembly settings) (room : ensemble.hasRoom = true)
    (moves : ensemble.Moves after) : after.Ledger := by
  cases moves with
  | enter => exact ledger.enter _
  | work found works => exact ledger.work safe bounded room found works
  | mark found marks => exact ledger.mark found marks
  | complete found free terminal promised => exact ledger.complete found free terminal promised
  | close found closing => exact ledger.close found closing
  | leave found ready => exact ledger.leave found ready
  | request => exact ledger.same (.of_lookup? rfl) rfl rfl rfl rfl
  | outside => exact ledger.same (.refl _) rfl rfl rfl rfl
  | sweep => exact ledger.sweep safe
  | claim => exact ledger.same (.refl _) rfl rfl rfl rfl
  | @discharge position duty _ => cases duty <;> exact ledger.same (.refl _) rfl rfl rfl rfl
  | finish => exact ledger.same (.refl _) rfl rfl rfl rfl
  | visit => exact ledger.visit _ _

theorem ledger_new (assembly : Assembly) (settings : Settings) (platform : Platform)
    (journal : Journal) : (Ensemble.new assembly settings platform journal).Ledger := by
  refine ⟨⟨trivial, fun _ _ nothing => (nomatch nothing), fun word result live => ?_⟩,
    fun _ nobody => (nomatch nobody), List.nodup_nil, fun _ nothing => (nomatch nothing),
    fun _ _ nothing => (nomatch nothing)⟩
  obtain ⟨_, object, found, _⟩ := Heap.outcome_eq_ok.1 live
  obtain ⟨slot, slotFound, _⟩ := Heap.lookup?_eq_some.1 found
  rw [Heap.slot?_eq_slotIn, Heap.slotIn_of_ne_zero _ (Heap.ne_zero_of_slotIn slotFound)]
    at slotFound
  cases slotFound

/-! ## How a wait ends -/

/-- How a wait goes on: it lasts, the waiter stops as it was told to, or it gets what it has waited
for. -/
inductive Proceeds (ensemble after : Ensemble) (strand : Strand) (joining : Joining)
    (later : Strand) : Prop
  | waits :
      later.phase.joining? = some joining →
      later.executor.eval = strand.executor.eval →
      Proceeds ensemble after strand joining later
  | stops :
      later.phase = .free →
      later.executor.state = .aborted →
      later.executor.eval = strand.executor.eval →
      Proceeds ensemble after strand joining later
  | joins (outcome : Word × ExecState) :
      joining.limit = none →
      later.phase = .free →
      after.history = .joined joining outcome strand.executor.eval.items
        later.executor.eval.items later.executor.state :: ensemble.history →
      Proceeds ensemble after strand joining later
  | tells (done : Bool) :
      joining.limit ≠ none →
      later.phase = .free →
      later.executor.state = .running →
      after.history = .told joining done strand.executor.eval.items later.executor.eval.items ::
        ensemble.history →
      Proceeds ensemble after strand joining later

theorem Marks.proceeds {marked : Strand} (marks : ensemble.Marks strand marked)
    (waiting : strand.phase.joining? = some joining) :
    marked.executor.id = strand.executor.id ∧ ensemble.Proceeds after strand joining marked := by
  cases marks with
  | stop free =>
    rw [free] at waiting
    cases waiting
  | abort => exact ⟨rfl, .waits waiting rfl⟩
  | cancel => exact ⟨rfl, .waits waiting rfl⟩
  | @look wait looking =>
    rw [looking] at waiting
    cases waiting
    refine ⟨rfl, .waits ?_ rfl⟩
    rcases ensemble.looked_cases joining with pauses | ⟨goesOn, _⟩
    · exact congrArg Strand.Phase.joining? pauses
    · exact congrArg Strand.Phase.joining? goesOn
  | pause _ pausing =>
    rw [pausing] at waiting
    exact ⟨rfl, .waits waiting rfl⟩
  | wake woken =>
    rw [woken] at waiting
    exact ⟨rfl, .waits waiting rfl⟩
  | give => exact ⟨rfl, .stops rfl rfl rfl⟩
  | resume woken =>
    rw [woken] at waiting
    exact ⟨rfl, .waits waiting rfl⟩

/-- A strand that waits for a future goes on waiting, stops, or takes what it waits for. -/
theorem Ledger.proceeds (ledger : ensemble.Ledger) (safe : ensemble.Safe)
    (bounded : ensemble.Bounded assembly settings) (member : strand ∈ ensemble.strands)
    (waiting : strand.phase.joining? = some joining) (moves : ensemble.Moves after) :
    ∃ later ∈ after.strands, later.executor.id = strand.executor.id ∧
      ensemble.Proceeds after strand joining later := by
  -- A turn of another strand leaves it where it is.
  have lasts : strand ∈ after.strands → ∃ later ∈ after.strands,
      later.executor.id = strand.executor.id ∧ ensemble.Proceeds after strand joining later :=
    fun still => ⟨strand, still, rfl, .waits waiting rfl⟩
  have set : ∀ {position : Nat} {actor changed : Strand},
      ensemble.strands[position]? = some actor →
      changed ∈ ensemble.strands.set position changed := by
    intro position actor changed found
    obtain ⟨bound, _⟩ := List.getElem?_eq_some_iff.1 found
    exact List.mem_set bound changed
  cases moves with
  | enter => exact lasts (List.mem_append_left _ member)
  | @work position actor computation phase events found works =>
    rcases mem_set_or found member with rfl | still
    · cases works with
      | issue free =>
        rw [free] at waiting
        cases waiting
      | ask free =>
        rw [free] at waiting
        cases waiting
      | settle free =>
        rw [free] at waiting
        cases waiting
      | @join wait phase unlimited =>
        rw [phase] at waiting
        cases waiting
        obtain ⟨executor, ran, id, _⟩ := ledger.follows_joined bounded member phase unlimited
        rw [perform_of_eq safe.spawned ran]
        exact ⟨_, set found, id, .joins _ unlimited rfl rfl⟩
      | @tell wait phase limited =>
        rw [phase] at waiting
        cases waiting
        obtain ⟨executor, ran, id, state, _⟩ := ledger.follows_told bounded member phase limited
        rw [perform_of_eq safe.spawned ran]
        exact ⟨_, set found, id, .tells _ limited rfl state rfl⟩
    · exact lasts (List.mem_append_left _ still)
  | @mark position actor marked found marks =>
    rcases mem_set_or found member with rfl | still
    · obtain ⟨id, proceeds⟩ := marks.proceeds waiting
      exact ⟨marked, set found, id, proceeds⟩
    · exact lasts still
  | @complete position actor promise found free =>
    rcases mem_set_or found member with rfl | still
    · rw [free] at waiting
      cases waiting
    · exact lasts still
  | @close position actor found closing =>
    rcases mem_set_or found member with rfl | still
    · rw [closing] at waiting
      cases waiting
    · exact lasts still
  | @leave position actor found ready =>
    rcases mem_eraseIdx_or found member with rfl | still
    · rcases ready with leaving | ⟨free, _⟩
      · rw [leaving] at waiting
        cases waiting
      · rw [free] at waiting
        cases waiting
    · exact lasts still
  | sweep => exact lasts member
  | @discharge position duty _ => cases duty <;> exact lasts member
  | @visit word rest _ =>
    rcases ensemble.visit_cases word rest with ⟨_, same⟩ | ⟨stream, _, _, same⟩
    · exact lasts (by rw [same]; exact member)
    · exact lasts (by rw [same]; exact member)
  | _ => exact lasts member

/-- A wait without a limit for a future that is there begins, and leaves the future where it is. -/
theorem Ledger.asks (ledger : ensemble.Ledger) (found : ensemble.strands[position]? = some strand)
    (free : strand.phase = .free) (running : strand.executor.state = .running)
    (joins : (ensemble.session strand).joins? = some .await) {rest : Array Word} {word : Word}
    {result : Option (Word × ExecState)} (items : strand.executor.eval.items = rest.push word)
    (live : ensemble.shared.heap.outcome word = .ok result) :
    ∃ after child, ensemble.step (.strand position .ask) = some after ∧
      Event.maker? word ensemble.history = some child ∧
      ∃ later ∈ after.strands, later.executor.id = strand.executor.id ∧
        later.phase = .looking ⟨word, child, none⟩ ∧
        later.executor.eval = strand.executor.eval := by
  obtain ⟨child, maker, _⟩ := ledger.accounts.made word result live
  have asked := @Exec.ask_await (ensemble.session strand) word rest result items live
  have looking : ensemble.asked strand .await = .looking ⟨word, child, none⟩ := by
    unfold Ensemble.asked
    rw [asked]
    dsimp only
    rw [maker]
    rfl
  have carried : (ensemble.session strand).carry (Exec.asking .await) =
      (ensemble.session strand).fetched .await
        ((ensemble.session strand).executor.ip + UInt32.ofNat Opcode.await.size) := by
    unfold Session.carry Exec.asking
    rw [Evaluation.exec_bind asked]
    rfl
  have steps : ensemble.step (.strand position .ask) =
      some (ensemble.perform position { strand with phase := ensemble.asked strand .await }
        (Exec.asking .await) fun _ => []) := by
    simp only [Ensemble.step, found, Ensemble.act, joins]
    exact if_pos ⟨free, running⟩
  obtain ⟨bound, _⟩ := List.getElem?_eq_some_iff.1 found
  have listed := List.mem_append_left
    (((ensemble.session strand).carry (Exec.asking .await)).shared.spawned.reverse.map
      fun executor => ({ executor } : Strand))
    (List.mem_set bound
      { strand with
        phase := ensemble.asked strand .await
        executor := ((ensemble.session strand).carry (Exec.asking .await)).executor })
  refine ⟨_, child, steps, maker, _, listed, ?_, looking, ?_⟩
  · rw [carried]
    rfl
  · rw [carried]
    rfl

/-! ## Every run -/

/-- Whatever turns are taken, what happens to futures follows what happened before. A forked call
hands over its result once, before it leaves. A wait begins for the future on top of the stack, and
it goes on until the waiter stops or gets what it has waited for. -/
theorem futures_keep_protocol {turns : List Turn} {platform : Platform} {journal : Journal}
    (ran : (Ensemble.new assembly settings platform journal).runWithin turns = some ensemble) :
    (∀ later event earlier, ensemble.history = later ++ event :: earlier →
      event.Follows earlier) ∧
    (∀ child future, .forked child future ∈ ensemble.history →
      child ∈ ensemble.strands.map (·.executor.id) ∨
        ∃ value state, .completed child value state ∈ ensemble.history) ∧
    (∀ position strand rest word result, ensemble.strands[position]? = some strand →
      strand.phase = .free → strand.executor.state = .running →
      (ensemble.session strand).joins? = some .await →
      strand.executor.eval.items = Array.push rest word →
      ensemble.shared.heap.outcome word = .ok result →
      ∃ after child, ensemble.step (.strand position .ask) = some after ∧
        Event.maker? word ensemble.history = some child ∧
        ∃ later ∈ after.strands, later.executor.id = strand.executor.id ∧
          later.phase = .looking ⟨word, child, none⟩ ∧
          later.executor.eval = strand.executor.eval) ∧
    ∀ strand ∈ ensemble.strands, ∀ joining, strand.phase.joining? = some joining →
      strand.Waits ensemble joining ∧
        ∀ turn after, ensemble.stepWithin turn = some after →
          ∃ later ∈ after.strands, later.executor.id = strand.executor.id ∧
            ensemble.Proceeds after strand joining later := by
  obtain ⟨safe, bounded, ledger⟩ := @runWithin_keeps _ _
    (fun now => now.Safe ∧ now.Bounded assembly settings ∧ now.Ledger)
    (fun _ _ ⟨safe, bounded, ledger⟩ room moves => ⟨safe.moves room moves, bounded.moves moves,
      ledger.moves safe bounded room moves⟩) _
    ⟨safe_new assembly settings platform journal, bounded_new assembly settings platform journal,
      ledger_new assembly settings platform journal⟩ ran
  refine ⟨fun later event earlier split => ?_, ledger.registered, ?_, ?_⟩
  · have lawful := ledger.accounts.lawful
    rw [split] at lawful
    exact lawful.follows
  · intro position strand rest word result found free running joins items live
    exact ledger.asks found free running joins items live
  · intro strand member joining waiting
    refine ⟨(ledger.strands strand member).waits joining waiting, fun turn after steps => ?_⟩
    obtain ⟨_, made⟩ := Option.ite_none_right_eq_some.1 steps
    exact ledger.proceeds safe bounded member waiting (moves_of_step made)

/-- A call is forked that returns five, and waited for. -/
def forking : Assembly where
  code := Bytes.ofList [146, 9, 0, 0, 0, 0, 2, 161, 149, 1, 5, 0, 0, 0, 149]
  literals := #[]
  entries := #[0]

/-- The waiter pauses, the call ends, and the waiter gets its value. -/
theorem futures_keep_protocol_forking :
    ∃ ensemble future,
      (Ensemble.new forking { evalStack := 2 } default .off).runWithin
          [.enter 0, .strand 0 .issue, .strand 0 .ask, .strand 0 .look, .strand 0 .pause,
            .strand 1 .issue, .strand 1 .issue, .strand 1 .complete, .strand 1 .close,
            .strand 0 .wake, .strand 0 .resume, .strand 0 .join, .strand 1 .leave] =
        some ensemble ∧
      ensemble.history =
        [.left 2,
          .joined ⟨future, 2, none⟩ (.ofInt 5, .success) #[future] #[.ofInt 5] .running,
          .completed 2 (.ofInt 5) .success, .forked 2 future] ∧
      ∀ later event earlier, ensemble.history = later ++ event :: earlier →
        event.Follows earlier := by
  have happened : ((Ensemble.new forking { evalStack := 2 } default .off).runWithin
      [.enter 0, .strand 0 .issue, .strand 0 .ask, .strand 0 .look, .strand 0 .pause,
        .strand 1 .issue, .strand 1 .issue, .strand 1 .complete, .strand 1 .close,
        .strand 0 .wake, .strand 0 .resume, .strand 0 .join, .strand 1 .leave]).map (·.history) =
      some [.left 2,
        .joined ⟨.ofHandle (.make 1 0), 2, none⟩ (.ofInt 5, .success) #[.ofHandle (.make 1 0)]
          #[.ofInt 5] .running,
        .completed 2 (.ofInt 5) .success, .forked 2 (.ofHandle (.make 1 0))] := by
    decide +kernel
  obtain ⟨ensemble, ran, history⟩ := Option.map_eq_some_iff.1 happened
  exact ⟨ensemble, _, ran, history, (futures_keep_protocol ran).1⟩

end Ensemble

end WordMachine
