import WordMachine.Proofs.References
import WordMachine.Machine.Step

/-!
Computations that keep every reference of an executor leading to an object. A computation is judged
from a heap on: it may rely on the words that led to an object there, in whatever heap it is run,
because computations only ever add to the handles in use.
-/

namespace WordMachine

variable {executor : Executor}

/-! ## Parts of arrays -/

section Parts

variable {α : Type} {item : α} {items : Array α}

theorem mem_of_mem_pop (member : item ∈ items.pop) : item ∈ items := by
  rw [← Array.mem_toList_iff, Array.toList_pop] at member
  exact Array.mem_toList_iff.1 (List.dropLast_subset _ member)

theorem mem_of_mem_shrink {count : Nat} (member : item ∈ items.shrink count) : item ∈ items := by
  rw [← Array.mem_toList_iff, Array.toList_shrink] at member
  exact Array.mem_toList_iff.1 (List.mem_of_mem_take member)

theorem mem_of_mem_extract {start stop : Nat} (member : item ∈ items.extract start stop) :
    item ∈ items := by
  obtain ⟨position, bound, rfl⟩ := Array.mem_extract_iff_getElem.1 member
  exact Array.getElem_mem _

end Parts

/-! ## Safety of a session -/

/-- An executor all of whose words lead to objects. -/
structure Executor.Rooted (heap : Heap) (executor : Executor) : Prop where
  eval : ∀ word ∈ executor.eval.items, heap.Resolves word
  consts : ∀ word ∈ executor.consts.slots, heap.Resolves word
  promise : ∀ word, executor.promise = some word →
    heap.Leads word ∧ heap.Resolves executor.result

theorem Executor.Rooted.mono {before after : Heap} (rooted : executor.Rooted before)
    (grown : before.Extends after) : executor.Rooted after where
  eval := fun word member => grown.resolves (rooted.eval word member)
  consts := fun word member => grown.resolves (rooted.consts word member)
  promise := by
    intro word promised
    obtain ⟨leads, resolves⟩ := rooted.promise word promised
    exact ⟨grown.leads leads, grown.resolves resolves⟩

theorem Executor.Rooted.roots {heap : Heap} (rooted : executor.Rooted heap) :
    ∀ word ∈ executor.roots, heap.Resolves word := by
  intro word member
  unfold Executor.roots at member
  rcases List.mem_append.1 member with inStacks | inFuture
  · rcases List.mem_append.1 inStacks with inEval | inConsts
    · exact rooted.eval word (Array.mem_toList_iff.1 inEval)
    · exact rooted.consts word (Array.mem_toList_iff.1 inConsts)
  · cases promised : executor.promise with
    | none =>
      rw [promised] at inFuture
      cases inFuture
    | some promise =>
      rw [promised] at inFuture
      obtain ⟨leads, resolves⟩ := rooted.promise promise promised
      rcases List.mem_cons.1 inFuture with rfl | inResult
      · exact leads.resolves
      · rw [List.mem_singleton.1 inResult]
        exact resolves

theorem Executor.Rooted.fail {heap : Heap} (rooted : executor.Rooted heap) (state : ExecState) :
    (executor.fail state).Rooted heap := by
  unfold Executor.fail
  split
  · exact ⟨rooted.eval, rooted.consts, rooted.promise⟩
  · exact rooted

/-- A session without a reference that leads nowhere. -/
structure Session.Safe (session : Session) : Prop where
  intact : session.shared.heap.Intact
  own : session.executor.Rooted session.shared.heap
  spawned : ∀ child ∈ session.shared.spawned, child.Rooted session.shared.heap
  fault : ∀ report, session.shared.fault = some report → report.fault.Permitted

/-- How a session may change when at most `spare` objects are made. -/
structure Session.Evolves (spare : Nat) (before after : Session) : Prop where
  safe : after.Safe
  grown : before.shared.heap.Extends after.shared.heap
  size : after.shared.heap.slots.size ≤ before.shared.heap.slots.size + spare

theorem Session.Evolves.refl {session : Session} (safe : session.Safe) (spare : Nat) :
    session.Evolves spare session :=
  ⟨safe, Heap.Extends.refl _, Nat.le_add_right _ _⟩

theorem Session.Evolves.trans {spare first second : Nat} {before between after : Session}
    (early : before.Evolves first between) (late : between.Evolves second after)
    (enough : first + second ≤ spare) :
    before.Evolves spare after := by
  refine ⟨late.safe, early.grown.trans late.grown, ?_⟩
  have earlySize := early.size
  have lateSize := late.size
  omega

/-- The end of a computation: the session has evolved, and a value has the given property or a
fault is not about a stale reference. -/
def Session.Yields {α : Type} (before : Session) (spare : Nat) (post : Heap → α → Prop) :
    EStateM.Result Fault Session α → Prop
  | .ok value after => before.Evolves spare after ∧ post after.shared.heap value
  | .error fault after => before.Evolves spare after ∧ fault.Permitted

def Anything {α : Type} (_ : Heap) (_ : α) : Prop :=
  True

namespace Exec

variable {α β : Type} {spare : Nat} {heap : Heap} {word : Word}
variable {post between : Heap → α → Prop} {computation : Exec α} {next : α → Exec β}

/-- A computation that keeps references leading to objects, makes at most `spare` objects, and
gives a value with a property. It may rely on what resolves in `heap`. -/
def Safe {α : Type} (spare : Nat) (heap : Heap) (computation : Exec α)
    (post : Heap → α → Prop) : Prop :=
  ∀ session : Session, session.Safe → heap.Extends session.shared.heap →
    session.shared.heap.slots.size + spare < 2 ^ 32 →
    session.Yields spare post (computation session)

/-! ## Composition -/

theorem Safe.pure {value : α} (holds : ∀ later, heap.Extends later → post later value) :
    Safe spare heap (Pure.pure value) post :=
  fun _ safe grown _ => ⟨.refl safe spare, holds _ grown⟩

theorem Safe.mono {weaker : Heap → α → Prop} (safe : Safe spare heap computation post)
    (weaken : ∀ later value, heap.Extends later → post later value → weaker later value) :
    Safe spare heap computation weaker := by
  intro session sessionSafe grown room
  have yields := safe session sessionSafe grown room
  cases result : computation session with
  | ok value after =>
    rw [result] at yields
    exact ⟨yields.1, weaken _ _ (grown.trans yields.1.grown) yields.2⟩
  | error fault after =>
    rw [result] at yields
    exact yields

theorem Safe.sequence {first second : Nat} {post : Heap → β → Prop}
    (before : Safe first heap computation between)
    (after : ∀ value later, heap.Extends later → between later value →
      Safe second later (next value) post) :
    Safe (first + second) heap (computation >>= next) post := by
  intro session safe grown room
  have yields := before session safe grown (by omega)
  change session.Yields _ post (EStateM.bind computation next session)
  unfold EStateM.bind
  cases result : computation session with
  | error fault middle =>
    rw [result] at yields
    exact ⟨yields.1.trans (.refl yields.1.safe 0) (by omega), yields.2⟩
  | ok value middle =>
    rw [result] at yields
    obtain ⟨evolved, holds⟩ := yields
    have size := evolved.size
    have rest := after value middle.shared.heap (grown.trans evolved.grown) holds middle
      evolved.safe (Heap.Extends.refl _) (by omega)
    simp only
    cases final : next value middle with
    | ok last finish =>
      rw [final] at rest
      exact ⟨evolved.trans rest.1 (Nat.le_refl _), rest.2⟩
    | error fault finish =>
      rw [final] at rest
      exact ⟨evolved.trans rest.1 (Nat.le_refl _), rest.2⟩

theorem Safe.bind {post : Heap → β → Prop} (before : Safe 0 heap computation between)
    (after : ∀ value later, heap.Extends later → between later value →
      Safe spare later (next value) post) : Safe spare heap (computation >>= next) post := by
  have both := before.sequence after
  rw [Nat.zero_add] at both
  exact both

/-- A computation that may make objects, then one that makes none. -/
theorem Safe.bindLast {post : Heap → β → Prop} (before : Safe spare heap computation between)
    (after : ∀ value later, heap.Extends later → between later value →
      Safe 0 later (next value) post) : Safe spare heap (computation >>= next) post :=
  before.sequence after

/-- A computation that makes no object, where one might be made. -/
theorem Safe.spared (safe : Safe 0 heap computation post) : Safe spare heap computation post := by
  intro session sessionSafe grown room
  have yields := safe session sessionSafe grown (by omega)
  cases result : computation session with
  | ok value after =>
    rw [result] at yields
    exact ⟨yields.1.trans (.refl yields.1.safe 0) (by omega), yields.2⟩
  | error fault after =>
    rw [result] at yields
    exact ⟨yields.1.trans (.refl yields.1.safe 0) (by omega), yields.2⟩

theorem Safe.ite {condition : Prop} [Decidable condition] {first second : Exec α}
    (yes : condition → Safe spare heap first post)
    (no : ¬ condition → Safe spare heap second post) :
    Safe spare heap (if condition then first else second) post := by
  split
  · next holds => exact yes holds
  · next fails => exact no fails

theorem Safe.throw {fault : Fault} (permitted : fault.Permitted) :
    Safe 0 heap (MonadExcept.throw fault) post :=
  fun _ safe _ _ => ⟨.refl safe 0, permitted⟩

/-! ## The executor -/

theorem safe_modifyExecutor {change : Executor → Executor}
    (keeps : ∀ later executor, heap.Extends later → executor.Rooted later →
      (change executor).Rooted later) :
    Safe 0 heap (modifyExecutor change) Anything := by
  intro session safe grown _
  refine ⟨⟨⟨safe.intact, keeps _ _ grown safe.own, safe.spawned, safe.fault⟩, ?_, ?_⟩, trivial⟩
  · exact Heap.Extends.refl _
  · exact Nat.le_refl _

theorem safe_modifyControl {change : Executor → Executor}
    (eval : ∀ executor, (change executor).eval = executor.eval)
    (consts : ∀ executor, (change executor).consts = executor.consts)
    (promise : ∀ executor, (change executor).promise = executor.promise)
    (result : ∀ executor, (change executor).result = executor.result) :
    Safe 0 heap (modifyExecutor change) Anything := by
  refine safe_modifyExecutor fun later executor _ rooted => ?_
  refine ⟨?_, ?_, ?_⟩
  · rw [eval]
    exact rooted.eval
  · rw [consts]
    exact rooted.consts
  · rw [promise, result]
    exact rooted.promise

theorem safe_fail (state : ExecState) : Safe 0 heap (fail state) Anything := by
  refine safe_modifyControl ?_ ?_ ?_ ?_ <;>
    · intro executor
      unfold Executor.fail
      split <;> rfl

theorem safe_isRunning : Safe 0 heap isRunning Anything :=
  fun _ safe _ _ => ⟨.refl safe 0, trivial⟩

theorem safe_push (resolves : heap.Resolves word) : Safe 0 heap (push word) Anything := by
  refine safe_modifyExecutor fun later executor grown rooted => ?_
  unfold Executor.push
  split
  · refine ⟨?_, rooted.consts, rooted.promise⟩
    intro other member
    rcases Array.mem_push.1 member with before | rfl
    · exact rooted.eval other before
    · exact grown.resolves resolves
  · exact rooted.fail .stackOverflow

/-- An operation on the operand stack that only rearranges operands and gives out some of them. -/
theorem safe_onEval {operation : EvalStack → Except Fault (α × EvalStack)}
    (succeeds : ∀ later stack value rest, heap.Extends later →
      operation stack = .ok (value, rest) → (∀ word ∈ stack.items, later.Resolves word) →
      (∀ word ∈ rest.items, later.Resolves word) ∧ post later value)
    (fails : ∀ stack fault, operation stack = .error fault → fault.Permitted) :
    Safe 0 heap (onEval operation) post := by
  intro session safe grown _
  obtain ⟨executor, shared⟩ := session
  unfold onEval
  simp only
  split
  · next value rest taken =>
    obtain ⟨remaining, holds⟩ := succeeds _ _ _ _ grown taken safe.own.eval
    refine ⟨⟨⟨safe.intact, ⟨remaining, ?_, ?_⟩, safe.spawned, safe.fault⟩, ?_, ?_⟩, holds⟩
    · exact safe.own.consts
    · exact safe.own.promise
    · exact Heap.Extends.refl _
    · exact Nat.le_refl _
  · next fault failed => exact ⟨.refl safe 0, fails _ _ failed⟩

theorem safe_pop : Safe 0 heap pop Heap.Resolves := by
  refine safe_onEval ?_ ?_
  · intro later stack value rest _ taken resolve
    unfold EvalStack.pop at taken
    split at taken
    · cases taken
      exact ⟨fun word member => resolve word (mem_of_mem_pop member),
        resolve _ (Array.getElem_mem _)⟩
    · cases taken
  · intro stack fault failed
    unfold EvalStack.pop at failed
    split at failed
    · cases failed
    · cases failed
      exact Fault.permitted_of_code (show 1003 ≠ 1001 by decide)

theorem safe_popAt (depth : Nat) : Safe 0 heap (popAt depth) Heap.Resolves := by
  refine safe_onEval ?_ ?_
  · intro later stack value rest _ taken resolve
    unfold EvalStack.popAt at taken
    split at taken
    · cases taken
      refine ⟨fun word member => resolve word ?_, resolve _ (Array.getElem_mem _)⟩
      exact Array.mem_of_mem_eraseIdx member
    · cases taken
  · intro stack fault failed
    unfold EvalStack.popAt at failed
    split at failed
    · cases failed
    · cases failed
      exact Fault.permitted_of_code (show 1003 ≠ 1001 by decide)

theorem safe_popMany (count : Nat) :
    Safe 0 heap (popMany count) fun later words => ∀ word ∈ words, later.Resolves word := by
  refine safe_onEval ?_ ?_
  · intro later stack value rest _ taken resolve
    unfold EvalStack.popMany at taken
    split at taken
    · cases taken
      constructor
      · intro word member
        exact resolve word (mem_of_mem_shrink member)
      · intro word member
        exact resolve word (mem_of_mem_extract member)
    · cases taken
  · intro stack fault failed
    unfold EvalStack.popMany at failed
    split at failed
    · cases failed
    · cases failed
      exact Fault.permitted_of_code (show 1003 ≠ 1001 by decide)

theorem safe_peekBehind (depth : Nat) : Safe 0 heap (peekBehind depth) Heap.Resolves := by
  intro session safe _ _
  unfold peekBehind
  split
  · next word peeked =>
    refine ⟨.refl safe 0, ?_⟩
    unfold EvalStack.peekBehind at peeked
    split at peeked
    · cases peeked
      exact safe.own.eval _ (Array.getElem_mem _)
    · cases peeked
  · next fault failed =>
    refine ⟨.refl safe 0, ?_⟩
    unfold EvalStack.peekBehind at failed
    split at failed
    · cases failed
    · cases failed
      exact Fault.permitted_of_code (show 1003 ≠ 1001 by decide)

theorem safe_peek : Safe 0 heap peek Heap.Resolves :=
  safe_peekBehind 0

theorem safe_pushAll {words : Array Word} (resolve : ∀ word ∈ words, heap.Resolves word) :
    Safe 0 heap (words.forM push) Anything := by
  obtain ⟨items⟩ := words
  have listed : ∀ word ∈ items, heap.Resolves word :=
    fun word member => resolve word (List.mem_toArray.2 member)
  rw [Array.forM_eq_forM, List.forM_toArray]
  clear resolve
  induction items generalizing heap with
  | nil => exact Safe.pure fun _ _ => trivial
  | cons word items ih =>
    change Safe 0 heap (push word >>= fun _ => items.forM push) Anything
    refine (safe_push (listed word List.mem_cons_self)).bind fun _ later grown _ => ?_
    exact ih fun other member =>
      grown.resolves (listed other (List.mem_cons_of_mem word member))

/-! ## The heap -/

theorem safe_look {view : Heap → Except Fault α}
    (succeeds : ∀ later value, heap.Extends later → later.Intact → view later = .ok value →
      post later value)
    (fails : ∀ later fault, heap.Extends later → later.Intact → view later = .error fault →
      fault.Permitted) : Safe 0 heap (look view) post := by
  intro session safe grown _
  unfold look
  split
  · next value viewed => exact ⟨.refl safe 0, succeeds _ _ grown safe.intact viewed⟩
  · next fault failed => exact ⟨.refl safe 0, fails _ _ grown safe.intact failed⟩

theorem Session.Safe.withHeap {executor : Executor} {shared : Shared} {changed : Heap}
    (safe : Session.Safe ⟨executor, shared⟩) (intact : changed.Intact)
    (grown : shared.heap.Extends changed) :
    Session.Safe ⟨executor, { shared with heap := changed }⟩ :=
  ⟨intact, safe.own.mono grown, fun child member => (safe.spawned child member).mono grown,
    safe.fault⟩

theorem safe_modifyHeap {change : Heap → Heap}
    (keeps : ∀ later, heap.Extends later → later.Intact →
      (change later).Intact ∧ later.Extends (change later) ∧
        (change later).slots.size = later.slots.size) :
    Safe 0 heap (modifyHeap change) Anything := by
  intro session safe grown _
  obtain ⟨intact, extended, size⟩ := keeps _ grown safe.intact
  exact ⟨⟨Session.Safe.withHeap safe intact extended, extended, Nat.le_of_eq size⟩, trivial⟩

theorem Safe.replaceHeap {view : Heap → Except Fault α} {target : α → Heap} {post : Heap → β → Prop}
    (succeeds : ∀ later value, heap.Extends later → later.Intact → view later = .ok value →
      (target value).Intact ∧ later.Extends (target value) ∧
        (target value).slots.size = later.slots.size ∧
        Safe spare (target value) (next value) post)
    (fails : ∀ later fault, heap.Extends later → later.Intact → view later = .error fault →
      fault.Permitted) :
    Safe spare heap
      (look view >>= fun value => modifyHeap (fun _ => target value) >>= fun _ => next value)
      post := by
  intro session safe grown room
  change session.Yields _ post (EStateM.bind (look view) _ session)
  unfold EStateM.bind look
  cases viewed : view session.shared.heap with
  | error fault =>
    exact ⟨.refl safe spare, fails _ _ grown safe.intact viewed⟩
  | ok value =>
    obtain ⟨intact, extended, size, rest⟩ := succeeds _ _ grown safe.intact viewed
    have changed := Session.Safe.withHeap safe intact extended
    have yields := rest _ changed (Heap.Extends.refl _) (by rw [size]; exact room)
    simp only
    change session.Yields _ post (next value ⟨session.executor, _⟩)
    have evolved : session.Evolves 0
        ⟨session.executor, { session.shared with heap := target value }⟩ :=
      ⟨changed, extended, Nat.le_of_eq size⟩
    cases final : next value ⟨session.executor, { session.shared with heap := target value }⟩ with
    | ok last finish =>
      rw [final] at yields
      exact ⟨evolved.trans yields.1 (Nat.le_of_eq (Nat.zero_add _)), yields.2⟩
    | error fault finish =>
      rw [final] at yields
      exact ⟨evolved.trans yields.1 (Nat.le_of_eq (Nat.zero_add _)), yields.2⟩

/-- A change of the shared state beside the heap, the forked executors and the fault. -/
theorem safe_modifyShared {change : Shared → Shared}
    (sameHeap : ∀ shared, (change shared).heap = shared.heap)
    (sameSpawned : ∀ shared, (change shared).spawned = shared.spawned)
    (sameFault : ∀ shared, (change shared).fault = shared.fault) :
    Safe 0 heap (modifyShared change) Anything := by
  intro session safe grown _
  refine ⟨⟨⟨?_, ?_, ?_, ?_⟩, ?_, ?_⟩, trivial⟩
  · change (change session.shared).heap.Intact
    rw [sameHeap]
    exact safe.intact
  · change session.executor.Rooted (change session.shared).heap
    rw [sameHeap]
    exact safe.own
  · change ∀ child ∈ (change session.shared).spawned, child.Rooted (change session.shared).heap
    rw [sameHeap, sameSpawned]
    exact safe.spawned
  · change ∀ report, (change session.shared).fault = some report → _
    rw [sameFault]
    exact safe.fault
  · change session.shared.heap.Extends (change session.shared).heap
    rw [sameHeap]
    exact Heap.Extends.refl _
  · change (change session.shared).heap.slots.size ≤ _
    rw [sameHeap]
    exact Nat.le_refl _

theorem safe_platform : Safe 0 heap platform Anything :=
  fun _ safe _ _ => ⟨.refl safe 0, trivial⟩

theorem safe_get : Safe 0 heap (MonadState.get : Exec Session) Anything :=
  fun _ safe _ _ => ⟨.refl safe 0, trivial⟩

theorem safe_modifyPlatform (change : Platform → Platform) :
    Safe 0 heap (modifyPlatform change) Anything :=
  safe_modifyShared (fun _ => rfl) (fun _ => rfl) fun _ => rfl

theorem safe_setPlatform (platform : Platform) : Safe 0 heap (setPlatform platform) Anything :=
  safe_modifyShared (fun _ => rfl) (fun _ => rfl) fun _ => rfl

theorem log_spawned (shared : Shared) (line : Unit → Bytes) :
    (shared.log line).spawned = shared.spawned := by
  unfold Shared.log
  split <;> rfl

theorem log_fault (shared : Shared) (line : Unit → Bytes) :
    (shared.log line).fault = shared.fault := by
  unfold Shared.log
  split <;> rfl

theorem safe_log (line : Unit → Bytes) :
    Safe 0 heap (modifyShared fun shared => shared.log line) Anything :=
  safe_modifyShared (fun shared => shared.log_heap line) (fun shared => log_spawned shared line)
    fun shared => log_fault shared line

theorem allocate_size (heap : Heap) (payload : Payload) :
    (heap.allocate payload).2.slots.size ≤ heap.slots.size + 1 := by
  rw [Heap.allocate_eq, ← Heap.charged_slots heap (Heap.headerSize + payload.size)]
  unfold Heap.place
  split
  · simp
  · simp

theorem safe_allocate? {payload : Payload}
    (refers : ∀ next, payload.Refers next → heap.Resolves next) :
    Safe 1 heap (allocate? payload) fun later made =>
      ∀ word, made = some word → later.Leads word := by
  intro session safe grown room
  obtain ⟨executor, shared⟩ := session
  unfold allocate?
  simp only
  split
  · obtain ⟨intact, extended, leads⟩ := safe.intact.allocate room
      fun next held => grown.resolves (refers next held)
    have changed := Session.Safe.withHeap safe intact extended
    unfold Shared.allocate
    simp only
    refine ⟨⟨⟨?_, ?_, ?_, ?_⟩, ?_, ?_⟩, ?_⟩
    · simp only [Shared.log_heap]
      exact changed.intact
    · simp only [Shared.log_heap]
      exact changed.own
    · simp only [Shared.log_heap, log_spawned]
      exact changed.spawned
    · simp only [log_fault]
      exact changed.fault
    · simp only [Shared.log_heap]
      exact extended
    · simp only [Shared.log_heap]
      exact allocate_size _ _
    · rintro word ⟨⟩
      simp only [Shared.log_heap]
      exact leads
  · exact ⟨.refl safe 1, fun word made => by cases made⟩

theorem safe_pushNew {payload : Payload}
    (refers : ∀ next, payload.Refers next → heap.Resolves next) :
    Safe 1 heap (pushNew payload) Anything := by
  refine (safe_allocate? refers).bindLast fun made later _ leads => ?_
  cases made with
  | some word =>
    exact safe_push (leads word rfl).resolves
  | none => exact safe_fail _

theorem safe_pushString (text : Bytes) : Safe 1 heap (pushString text) Anything :=
  safe_pushNew fun _ held => by cases held

theorem safe_pushInt (value : Int32) : Safe 0 heap (pushInt value) Anything :=
  safe_push (Heap.resolves_of_isRef (Word.isRef_ofInt value))

theorem safe_pushBool (value : Bool) : Safe 0 heap (pushBool value) Anything :=
  safe_push (Heap.resolves_of_isRef (Word.isRef_ofBool value))

theorem safe_pushFloat (bits : Number.Single) : Safe 0 heap (pushFloat bits) Anything :=
  safe_push (Heap.resolves_of_isRef (Word.isRef_ofFloat bits))

theorem safe_pushLong (value : Int64) : Safe 1 heap (pushLong value) Anything := by
  refine Safe.ite (fun _ => ?_) fun _ => ?_
  · exact (safe_push (Heap.resolves_of_isRef (Word.isRef_ofInlineLong value))).spared
  · exact safe_pushNew fun _ held => by cases held

theorem safe_popInt : Safe 0 heap popInt Anything :=
  safe_pop.bind fun _ _ _ _ => Safe.pure fun _ _ => trivial

theorem safe_popFloat : Safe 0 heap popFloat Anything :=
  safe_pop.bind fun _ _ _ _ => Safe.pure fun _ _ => trivial

theorem safe_long (resolves : heap.Resolves word) : Safe 0 heap (long word) Anything :=
  safe_look (fun _ _ _ _ _ => trivial) fun _ _ grown _ failed =>
    Heap.long_permitted (grown.resolves resolves) failed

theorem safe_popLong : Safe 0 heap popLong Anything :=
  safe_pop.bind fun _ _ _ resolves => safe_long resolves

theorem safe_text (resolves : heap.Resolves word) : Safe 0 heap (text word) Anything := by
  have whole : ∀ {later : Heap}, later.Resolves word → Safe 0 later (look (·.text word)) Anything :=
    fun leads => safe_look (fun _ _ _ _ _ => trivial) fun _ _ grown intact failed =>
      Heap.text_permitted intact.closed (grown.resolves leads) failed
  have looked : Safe 0 heap (look (·.deref word)) fun later object =>
      later.lookup? word.toHandle = some object :=
    safe_look (fun _ _ _ _ found => Heap.deref_lookup? found) fun _ _ grown _ failed =>
      Heap.deref_permitted (grown.resolves resolves) failed
  refine looked.bind fun object later grown found => ?_
  split
  · exact Safe.pure fun _ _ => trivial
  · refine (whole (grown.resolves resolves)).bind fun text afterwards extended _ => ?_
    refine Safe.bind (safe_modifyHeap fun last lastGrown intact => ?_) fun _ _ _ _ =>
      Safe.pure fun _ _ => trivial
    obtain ⟨other, otherFound⟩ := (extended.trans lastGrown) _ object found
    obtain ⟨now, more⟩ := intact.remember otherFound text
    exact ⟨now, more, Array.size_modify⟩
  · exact whole (grown.resolves resolves)

theorem safe_popText : Safe 0 heap popText Anything :=
  safe_pop.bind fun _ _ _ resolves => safe_text resolves

/-! ## Streams -/

theorem safe_lookStream (resolves : heap.Resolves word) :
    Safe 0 heap (look (·.stream word)) fun later _ =>
      ∃ object, later.lookup? word.toHandle = some object :=
  safe_look (fun _ _ _ _ viewed => Heap.stream_eq_ok viewed) fun _ _ grown _ failed =>
    Heap.view_permitted (grown.resolves resolves) failed

theorem safe_peekStream (depth : Nat) : Safe 0 heap (peekStream depth) Anything :=
  (safe_peekBehind depth).bind fun _ _ _ resolves =>
    (safe_lookStream resolves).mono fun _ _ _ _ => trivial

theorem safe_popStream : Safe 0 heap popStream Anything :=
  safe_pop.bind fun _ _ _ resolves => (safe_lookStream resolves).mono fun _ _ _ _ => trivial

theorem safe_setStream {object : Object} (found : heap.lookup? word.toHandle = some object)
    (stream : Stream) : Safe 0 heap (setStream word stream) Anything := by
  refine safe_modifyHeap fun later grown intact => ?_
  obtain ⟨other, otherFound⟩ := grown _ object found
  have refers : ∀ next, (Payload.stream stream).Refers next → later.Resolves next :=
    fun _ held => by cases held
  obtain ⟨now, more⟩ := intact.setPayload otherFound refers nofun
  exact ⟨now, more, Array.size_modify⟩

theorem safe_pushStream (stream : Stream) : Safe 1 heap (pushStream stream) Anything := by
  have refers : ∀ next, (Payload.stream stream).Refers next → heap.Resolves next :=
    fun _ held => by cases held
  refine (safe_allocate? refers).bindLast fun made later _ leads => ?_
  cases made with
  | some word =>
    exact safe_push (leads word rfl).resolves
  | none =>
    refine Safe.bind (safe_modifyShared (fun _ => rfl) (fun _ => rfl) fun _ => rfl) ?_
    exact fun _ _ _ _ => safe_fail _

end Exec

end WordMachine
