import WordMachine.Proofs.Operands
import WordMachine.Proofs.RenamedHeaps
import WordMachine.Proofs.SafeExecution
import Mathlib

/-!
Sessions that are the same up to the references they hold. Two such sessions carry out one
computation side by side: each primitive ends alike in both, with the same fault or with results and
sessions that are again the same up to references.
-/

namespace WordMachine

/-! ## Related sessions -/

/-- Whether a log is kept apart from what the program writes. -/
def Journal.Apart : Journal → Prop
  | .console => False
  | _ => True

/-- A wait that ends with the first attempt. -/
def Wait.isBrief : Wait → Bool
  | .consoleChar => true
  | .consoleLine => true
  | .address _ => true
  | _ => false

def Executor.withWords (executor : Executor) (items slots : Array Word) : Executor :=
  { executor with
    eval := { executor.eval with items }
    consts := { executor.consts with slots } }

inductive Executor.Mirrors (pairs : Renaming) : Executor → Executor → Prop
  | intro {executor : Executor} {items slots : Array Word} :
      List.Forall₂ pairs.Relates executor.eval.items.toList items.toList →
      List.Forall₂ pairs.Relates executor.consts.slots.toList slots.toList →
      executor.promise = none →
      (∀ wait, executor.wait = some wait → wait.isBrief = true) →
      Mirrors pairs executor (executor.withWords items slots)

namespace Executor.Mirrors

variable {pairs : Renaming} {own other : Executor}

theorem control (mirrors : own.Mirrors pairs other) (change : Executor → Executor)
    (commutes : ∀ executor items slots,
      change (withWords executor items slots) = (change executor).withWords items slots)
    (eval : ∀ executor, (change executor).eval = executor.eval)
    (consts : ∀ executor, (change executor).consts.slots = executor.consts.slots)
    (promise : ∀ executor, (change executor).promise = executor.promise)
    (waits : ∀ wait, (change own).wait = some wait → own.wait = some wait ∨ wait.isBrief = true) :
    (change own).Mirrors pairs (change other) := by
  cases mirrors with
  | intro items slots alone brief =>
    rw [commutes]
    refine .intro ?_ ?_ ?_ ?_
    · rw [eval]
      exact items
    · rw [consts]
      exact slots
    · rw [promise]
      exact alone
    · intro wait waiting
      rcases waits wait waiting with before | now
      · exact brief wait before
      · exact now

theorem fail (mirrors : own.Mirrors pairs other) (state : ExecState) :
    (own.fail state).Mirrors pairs (other.fail state) := by
  have fails : ∀ executor : Executor, executor.fail state =
      { executor with state := if executor.state = .running then state else executor.state } := by
    intro executor
    unfold Executor.fail
    split
    · next running => rw [if_pos running]
    · next other => rw [if_neg other]
  rw [fails, fails]
  exact mirrors.control
    (fun executor =>
      { executor with state := if executor.state = .running then state else executor.state })
    (fun _ _ _ => rfl) (fun _ => rfl) (fun _ => rfl) (fun _ => rfl) fun _ before => Or.inl before

theorem withItems (mirrors : own.Mirrors pairs other) {items others : Array Word}
    (related : List.Forall₂ pairs.Relates items.toList others.toList) :
    Mirrors pairs { own with eval := ⟨own.eval.capacity, items⟩ }
      { other with eval := ⟨other.eval.capacity, others⟩ } := by
  cases mirrors with
  | @intro _ slots _ kept alone brief =>
    exact @intro pairs { own with eval := ⟨own.eval.capacity, items⟩ } others slots related kept
      alone brief

theorem withSlots (mirrors : own.Mirrors pairs other) (base : Nat) {slots others : Array Word}
    (related : List.Forall₂ pairs.Relates slots.toList others.toList) :
    Mirrors pairs { own with consts := ⟨own.consts.capacity, base, slots⟩ }
      { other with consts := ⟨own.consts.capacity, base, others⟩ } := by
  cases mirrors with
  | @intro items _ kept _ alone brief =>
    exact @intro pairs { own with consts := ⟨own.consts.capacity, base, slots⟩ } items others kept
      related alone brief

/-- The same words, related in another way. -/
theorem related (mirrors : own.Mirrors pairs other) {later : Renaming}
    (items : List.Forall₂ later.Relates own.eval.items.toList other.eval.items.toList)
    (slots : List.Forall₂ later.Relates own.consts.slots.toList other.consts.slots.toList) :
    own.Mirrors later other := by
  cases mirrors with
  | intro _ _ alone brief => exact .intro items slots alone brief

theorem items (mirrors : own.Mirrors pairs other) :
    List.Forall₂ pairs.Relates own.eval.items.toList other.eval.items.toList := by
  cases mirrors with
  | intro items _ _ _ => exact items

theorem slots (mirrors : own.Mirrors pairs other) :
    List.Forall₂ pairs.Relates own.consts.slots.toList other.consts.slots.toList := by
  cases mirrors with
  | intro _ slots _ _ => exact slots

theorem mono (mirrors : own.Mirrors pairs other) {later : Renaming} (kept : pairs ⊆ later) :
    own.Mirrors later other :=
  mirrors.related (mirrors.items.imp fun _ _ relates => relates.mono kept)
    (mirrors.slots.imp fun _ _ relates => relates.mono kept)

theorem swap (mirrors : own.Mirrors pairs other) : other.Mirrors pairs.swapped own := by
  cases mirrors with
  | @intro items slots related kept alone brief =>
    exact @intro pairs.swapped (own.withWords items slots) own.eval.items own.consts.slots
      (Renaming.relates_swap related) (Renaming.relates_swap kept) alone brief

theorem rest (mirrors : own.Mirrors pairs other) :
    other = own.withWords other.eval.items other.consts.slots := by
  cases mirrors with
  | intro _ _ _ _ => rfl

theorem itemsSize (mirrors : own.Mirrors pairs other) :
    other.eval.items.size = own.eval.items.size := by
  simpa using mirrors.items.length_eq.symm

theorem slotsSize (mirrors : own.Mirrors pairs other) :
    other.consts.slots.size = own.consts.slots.size := by
  simpa using mirrors.slots.length_eq.symm

theorem capacity (mirrors : own.Mirrors pairs other) : other.eval.capacity = own.eval.capacity := by
  rw [mirrors.rest]
  rfl

theorem promises (mirrors : own.Mirrors pairs other) :
    own.promise = none ∧ other.promise = none := by
  cases mirrors with
  | intro _ _ alone _ => exact ⟨alone, alone⟩

theorem brief (mirrors : own.Mirrors pairs other) (wait : Wait) (waiting : own.wait = some wait) :
    wait.isBrief = true := by
  cases mirrors with
  | intro _ _ _ brief => exact brief wait waiting

theorem state_eq (mirrors : own.Mirrors pairs other) : other.state = own.state := by
  rw [mirrors.rest]
  rfl

theorem ip_eq (mirrors : own.Mirrors pairs other) : other.ip = own.ip := by
  rw [mirrors.rest]
  rfl

theorem consts_eq (mirrors : own.Mirrors pairs other) :
    other.consts = ⟨own.consts.capacity, own.consts.base, other.consts.slots⟩ := by
  rw [mirrors.rest]
  rfl

theorem push (mirrors : own.Mirrors pairs other) {word twin : Word}
    (relates : pairs.Relates word twin) : (own.push word).Mirrors pairs (other.push twin) := by
  unfold Executor.push
  rw [mirrors.itemsSize, mirrors.capacity]
  split
  · have related : List.Forall₂ pairs.Relates (own.eval.items.push word).toList
        (other.eval.items.push twin).toList := by
      rw [Array.toList_push, Array.toList_push]
      exact List.rel_append mirrors.items (.cons relates .nil)
    have pushed := mirrors.withItems related
    rw [mirrors.capacity] at pushed
    exact pushed
  · exact mirrors.fail _

end Executor.Mirrors

/-- Shared states that differ in the heap and in what is recorded of the run. -/
inductive Shared.Mirrors (pairs : Renaming) : Shared → Shared → Prop
  | intro {shared : Shared} {heap : Heap} {journal : Journal}
      {milestones : Array (Milestone × Nat)} :
      shared.heap.Mirrors pairs heap →
      shared.journal.Apart →
      journal.Apart →
      Mirrors pairs shared { shared with heap, journal, milestones }

namespace Shared.Mirrors

variable {pairs later : Renaming} {own other : Shared}

theorem withHeaps (mirrors : own.Mirrors pairs other) {heap otherHeap : Heap}
    (heaps : heap.Mirrors later otherHeap) :
    Mirrors later { own with heap } { other with heap := otherHeap } := by
  cases mirrors with
  | @intro _ journal milestones _ apart otherApart =>
    exact @intro later { own with heap } otherHeap journal milestones heaps apart otherApart

theorem withPlatform (mirrors : own.Mirrors pairs other) (change : Platform → Platform) :
    Mirrors pairs { own with platform := change own.platform }
      { other with platform := change other.platform } := by
  cases mirrors with
  | @intro heap journal milestones heaps apart otherApart =>
    exact @intro pairs { own with platform := change own.platform } heap journal milestones heaps
      apart otherApart

theorem swap (mirrors : own.Mirrors pairs other) : other.Mirrors pairs.swapped own := by
  cases mirrors with
  | @intro heap journal milestones heaps apart otherApart =>
    exact @intro pairs.swapped { own with heap, journal, milestones } own.heap own.journal
      own.milestones heaps.swap otherApart apart

theorem heaps (mirrors : own.Mirrors pairs other) : own.heap.Mirrors pairs other.heap := by
  cases mirrors with
  | intro heaps _ _ => exact heaps

theorem platform_eq (mirrors : own.Mirrors pairs other) : own.platform = other.platform := by
  cases mirrors with
  | intro _ _ _ => rfl

theorem fault_eq (mirrors : own.Mirrors pairs other) : own.fault = other.fault := by
  cases mirrors with
  | intro _ _ _ => rfl

theorem assembly_eq (mirrors : own.Mirrors pairs other) : other.assembly = own.assembly := by
  cases mirrors with
  | intro _ _ _ => rfl

theorem log_eq (shared : Shared) (apart : shared.journal.Apart) (line : Unit → Bytes) :
    ∃ journal : Journal, journal.Apart ∧ shared.log line = { shared with journal } := by
  obtain ⟨assembly, settings, heap, platform, journal, aborting, fault, started, spawned,
    milestones⟩ := shared
  cases journal with
  | off => exact ⟨.off, trivial, rfl⟩
  | kept text => exact ⟨.kept (text ++ line () ++ "\n"), trivial, rfl⟩
  | console => exact apart.elim

theorem foldl_log_eq {α : Type} (items : List α) (line : α → Unit → Bytes) (shared : Shared)
    (apart : shared.journal.Apart) :
    ∃ journal : Journal, journal.Apart ∧
      items.foldl (fun shared item => shared.log (line item)) shared = { shared with journal } := by
  induction items generalizing shared with
  | nil => exact ⟨shared.journal, apart, rfl⟩
  | cons item items ih =>
    obtain ⟨journal, now, logged⟩ := log_eq shared apart (line item)
    rw [List.foldl_cons, logged]
    exact ih { shared with journal } now

/-- A collection of a heap without streams changes the heap and what is recorded of the run. -/
theorem collect_eq (shared : Shared) (apart : shared.journal.Apart) (tidy : shared.heap.Tidy)
    (roots : List Word) :
    ∃ (journal : Journal) (milestones : Array (Milestone × Nat)), journal.Apart ∧
      (shared.collect roots).2 =
        { shared with heap := (shared.heap.collect roots).1, journal, milestones } := by
  unfold Shared.collect
  simp only [tidy.freedStreams_eq_nil, List.foldl_nil]
  obtain ⟨journal, now, freed⟩ := foldl_log_eq (shared.heap.collect roots).2
    (fun entry _ => "[heap] free " ++ entry.object.payload.kind.name.toUTF8 ++ "#" ++
      Bytes.ofNat entry.index.toNat)
    { shared with heap := (shared.heap.collect roots).1 } apart
  rw [freed]
  generalize (fun _ : Unit => _) = line
  obtain ⟨last, lastApart, logged⟩ := log_eq
    { shared with heap := (shared.heap.collect roots).1, journal } now line
  rw [logged]
  exact ⟨last, _, lastApart, rfl⟩

/-- A collection of the second state, where it leaves the heaps related. -/
theorem collectedSecond (mirrors : own.Mirrors pairs other) (roots : List Word)
    (heaps : own.heap.Mirrors later
      (({ other.heap with requested := false } : Heap).collect roots).1) :
    own.Mirrors later
      (({ other with heap := { other.heap with requested := false } } :
        Shared).collect roots).2 := by
  cases mirrors with
  | @intro heap journal milestones before apart otherApart =>
    obtain ⟨now, reports, nowApart, collected⟩ := collect_eq
      { own with heap := { heap with requested := false }, journal, milestones } otherApart
      (before.secondTidy.paced false) roots
    rw [collected]
    exact @intro later own _ now reports heaps apart nowApart

theorem log (mirrors : own.Mirrors pairs other) (line otherLine : Unit → Bytes) :
    (own.log line).Mirrors pairs (other.log otherLine) := by
  cases mirrors with
  | @intro heap journal milestones heaps apart otherApart =>
    obtain ⟨now, nowApart, logged⟩ := log_eq own apart line
    obtain ⟨otherNow, otherNowApart, otherLogged⟩ :=
      log_eq { own with heap, journal, milestones } otherApart otherLine
    rw [logged, otherLogged]
    exact @intro pairs { own with journal := now } heap otherNow milestones heaps nowApart
      otherNowApart

end Shared.Mirrors

def Session.operands (session : Session) : List Word :=
  session.executor.eval.items.toList.reverse

/-- Sessions that are the same up to references, with room for some more objects. The operands at
the depths in `numbers` are no references. -/
structure Session.Mirrors (spare : Nat) (numbers : List Nat) (pairs : Renaming)
    (first second : Session) : Prop where
  executor : first.executor.Mirrors pairs second.executor
  shared : first.shared.Mirrors pairs second.shared
  room : first.shared.heap.slots.size + spare < 2 ^ 32
  otherRoom : second.shared.heap.slots.size + spare < 2 ^ 32
  plain : ∀ depth ∈ numbers, ∀ word, first.operands[depth]? = some word → word.isRef = false

/-- The same operands after the top one was taken off. -/
def lowered : List Nat → List Nat
  | [] => []
  | 0 :: rest => lowered rest
  | (depth + 1) :: rest => depth :: lowered rest

theorem succ_mem_of_mem_lowered {numbers : List Nat} {depth : Nat}
    (member : depth ∈ lowered numbers) :
    depth + 1 ∈ numbers := by
  induction numbers with
  | nil => cases member
  | cons number numbers ih =>
    cases number with
    | zero => exact List.mem_cons_of_mem _ (ih member)
    | succ number =>
      rcases List.mem_cons.1 member with rfl | later
      · exact List.mem_cons_self
      · exact List.mem_cons_of_mem _ (ih later)

/-- Computations that end alike. -/
inductive Exec.Agree {α β : Type} (post : α → Session → β → Session → Prop) :
    EStateM.Result Fault Session α → EStateM.Result Fault Session β → Prop
  | ok {value : α} {other : β} {first second : Session} :
      post value first other second →
      Agree post (.ok value first) (.ok other second)
  | error {fault : Fault} {pairs : Renaming} {first second : Session} :
      first.Mirrors 0 [] pairs second →
      Agree post (.error fault first) (.error fault second)

/-- Sessions that are the same up to references, whatever the results. -/
def Exec.Ends {α β : Type} (spare : Nat) (_ : α) (first : Session) (_ : β) (second : Session) :
    Prop :=
  ∃ pairs, first.Mirrors spare [] pairs second

namespace Exec

variable {α β γ δ : Type} {first second : Session}

/-- What follows may use what the first computation did. -/
theorem Agree.bindRan {left : Exec α} {right : Exec β} {next : α → Exec γ} {otherNext : β → Exec δ}
    {middle : α → Session → β → Session → Prop} {post : γ → Session → δ → Session → Prop}
    (agree : Agree middle (left first) (right second))
    (rest : ∀ value after other otherAfter, left first = .ok value after →
      middle value after other otherAfter →
      Agree post (next value after) (otherNext other otherAfter)) :
    Agree post ((left >>= next) first) ((right >>= otherNext) second) := by
  change Agree post (EStateM.bind left next first) (EStateM.bind right otherNext second)
  unfold EStateM.bind
  generalize left first = result at agree rest
  generalize right second = otherResult at agree
  cases agree with
  | ok holds => exact rest _ _ _ _ rfl holds
  | error mirrors => exact .error mirrors

theorem Agree.bind {left : Exec α} {right : Exec β} {next : α → Exec γ} {otherNext : β → Exec δ}
    {middle : α → Session → β → Session → Prop} {post : γ → Session → δ → Session → Prop}
    (agree : Agree middle (left first) (right second))
    (rest : ∀ value after other otherAfter, middle value after other otherAfter →
      Agree post (next value after) (otherNext other otherAfter)) :
    Agree post ((left >>= next) first) ((right >>= otherNext) second) :=
  agree.bindRan fun value after other otherAfter _ => rest value after other otherAfter

theorem Agree.mono {post weaker : α → Session → β → Session → Prop}
    {left : EStateM.Result Fault Session α} {right : EStateM.Result Fault Session β}
    (agree : Agree post left right)
    (implies : ∀ value after other otherAfter, post value after other otherAfter →
      weaker value after other otherAfter) : Agree weaker left right := by
  cases agree with
  | ok holds => exact .ok (implies _ _ _ _ holds)
  | error mirrors => exact .error mirrors

theorem Agree.ite {post : α → Session → β → Session → Prop} {condition : Prop}
    [Decidable condition] {yes no : Exec α} {otherYes otherNo : Exec β}
    (whenTrue : condition → Agree post (yes first) (otherYes second))
    (whenFalse : ¬ condition → Agree post (no first) (otherNo second)) :
    Agree post ((if condition then yes else no) first)
      ((if condition then otherYes else otherNo) second) := by
  by_cases holds : condition
  · rw [if_pos holds, if_pos holds]
    exact whenTrue holds
  · rw [if_neg holds, if_neg holds]
    exact whenFalse holds

end Exec

namespace Session.Mirrors

open Exec

variable {spare : Nat} {numbers : List Nat} {pairs : Renaming} {first second : Session}
variable {α β : Type} {word twin : Word} {session : Session}

theorem heaps (mirrors : first.Mirrors spare numbers pairs second) :
    first.shared.heap.Mirrors pairs second.shared.heap :=
  mirrors.shared.heaps

theorem weaken (mirrors : first.Mirrors spare numbers pairs second) {less : Nat}
    (fewer : less ≤ spare) : first.Mirrors less [] pairs second :=
  ⟨mirrors.executor, mirrors.shared, by have := mirrors.room; omega,
    by have := mirrors.otherRoom; omega, nofun⟩

theorem ends (mirrors : first.Mirrors (spare + 1) numbers pairs second) {value : α} {other : β} :
    Ends spare value first other second :=
  ⟨pairs, mirrors.weaken (Nat.le_succ spare)⟩

theorem agree_ends {left : EStateM.Result Fault Session α} {right : EStateM.Result Fault Session β}
    (agree : Agree (fun _ after _ otherAfter => after.Mirrors (spare + 1) numbers pairs otherAfter)
      left right) : Agree (Ends spare) left right :=
  agree.mono fun _ _ _ _ after => after.ends

theorem fault {post : α → Session → β → Session → Prop}
    (mirrors : first.Mirrors spare numbers pairs second) (fault : Fault) :
    Agree post (.error fault first) (.error fault second) :=
  .error (mirrors.weaken (Nat.zero_le _))

/-! ## Control -/

theorem withExecutors (mirrors : first.Mirrors spare numbers pairs second) {own other : Executor}
    (related : own.Mirrors pairs other) :
    Session.Mirrors spare [] pairs ⟨own, first.shared⟩ ⟨other, second.shared⟩ :=
  ⟨related, mirrors.shared, mirrors.room, mirrors.otherRoom, nofun⟩

theorem modifyExecutor (mirrors : first.Mirrors spare numbers pairs second)
    {change otherChange : Executor → Executor}
    (related : (change first.executor).Mirrors pairs (otherChange second.executor)) :
    Agree (fun _ after _ otherAfter => after.Mirrors spare [] pairs otherAfter)
      (Exec.modifyExecutor change first) (Exec.modifyExecutor otherChange second) :=
  .ok (mirrors.withExecutors related)

theorem modifyControl (mirrors : first.Mirrors spare numbers pairs second)
    {change : Executor → Executor} (commutes : ∀ executor items slots,
      change (Executor.withWords executor items slots) = (change executor).withWords items slots)
    (eval : ∀ executor, (change executor).eval = executor.eval)
    (consts : ∀ executor, (change executor).consts.slots = executor.consts.slots)
    (promise : ∀ executor, (change executor).promise = executor.promise)
    (waits : ∀ executor wait, (change executor).wait = some wait →
      executor.wait = some wait ∨ wait.isBrief = true) :
    Agree (fun _ after _ otherAfter => after.Mirrors spare [] pairs otherAfter)
      (Exec.modifyExecutor change first) (Exec.modifyExecutor change second) :=
  mirrors.modifyExecutor
    (mirrors.executor.control change commutes eval consts promise (waits first.executor))

theorem fail (mirrors : first.Mirrors spare numbers pairs second) (state : ExecState) :
    Agree (fun _ after _ otherAfter => after.Mirrors spare [] pairs otherAfter)
      (Exec.fail state first) (Exec.fail state second) :=
  mirrors.modifyExecutor (mirrors.executor.fail state)

theorem failEnds (mirrors : first.Mirrors (spare + 1) numbers pairs second) (state : ExecState) :
    Agree (Ends spare) (Exec.fail state first) (Exec.fail state second) :=
  agree_ends (mirrors.fail state)

theorem jump (mirrors : first.Mirrors (spare + 1) numbers pairs second) (target : UInt32) :
    Agree (Ends spare) (Exec.jump target first) (Exec.jump target second) :=
  agree_ends (mirrors.modifyControl (fun _ _ _ => rfl) (fun _ => rfl) (fun _ => rfl)
    (fun _ => rfl) fun _ _ before => Or.inl before)

theorem resume (mirrors : first.Mirrors spare numbers pairs second) :
    Agree (fun _ after _ otherAfter => after.Mirrors spare [] pairs otherAfter)
      (Exec.resume first) (Exec.resume second) :=
  mirrors.modifyControl (fun _ _ _ => rfl) (fun _ => rfl) (fun _ => rfl) (fun _ => rfl)
    fun _ _ => nofun

theorem stay (mirrors : first.Mirrors spare numbers pairs second) {wait : Wait}
    (brief : wait.isBrief = true) :
    Agree (fun _ after _ otherAfter => after.Mirrors spare [] pairs otherAfter)
      (Exec.stay wait first) (Exec.stay wait second) := by
  refine mirrors.modifyControl (fun _ _ _ => rfl) (fun _ => rfl) (fun _ => rfl) (fun _ => rfl) ?_
  rintro _ other ⟨⟩
  exact Or.inr brief

/-! ## Operands -/

theorem operands (mirrors : first.Mirrors spare numbers pairs second) :
    List.Forall₂ pairs.Relates first.operands second.operands :=
  List.forall₂_reverse_iff.2 mirrors.executor.items

theorem pop_nil (empty : session.operands = []) : Exec.pop session = .error .popEmpty session := by
  have nothing : session.executor.eval.items = #[] := by simpa [Session.operands] using empty
  simp [Exec.pop, Exec.onEval, EvalStack.pop, nothing]

theorem pop_cons {rest : List Word} (top : session.operands = word :: rest) :
    Exec.pop session = .ok word (Evaluation.withOperands session rest.reverse.toArray) := by
  obtain ⟨below, items, same⟩ := Evaluation.exists_push_of_reverse top
  subst same
  simp [Exec.pop, Exec.onEval, EvalStack.pop, items, Evaluation.withOperands]

theorem pop (mirrors : first.Mirrors spare numbers pairs second) :
    Agree
      (fun word after twin otherAfter => pairs.Relates word twin ∧
        after.Mirrors spare (lowered numbers) pairs otherAfter ∧
        first.operands = word :: after.operands ∧
        after = Evaluation.withOperands first after.executor.eval.items)
      (Exec.pop first) (Exec.pop second) := by
  have related := mirrors.operands
  cases operands : first.operands with
  | nil =>
    rw [operands] at related
    rw [pop_nil operands, pop_nil (List.forall₂_nil_left_iff.1 related)]
    exact mirrors.fault _
  | cons word rest =>
    rw [operands] at related
    obtain ⟨twin, otherRest, head, tail, others⟩ := List.forall₂_cons_left_iff.1 related
    rw [pop_cons operands, pop_cons others]
    have items : List.Forall₂ pairs.Relates rest.reverse.toArray.toList
        otherRest.reverse.toArray.toList := List.forall₂_reverse_iff.2 tail
    refine .ok ⟨head, ⟨mirrors.executor.withItems items, mirrors.shared, mirrors.room,
      mirrors.otherRoom, ?_⟩, ?_, rfl⟩
    · intro depth member other found
      refine mirrors.plain (depth + 1) (succ_mem_of_mem_lowered member) other ?_
      rw [operands]
      simpa [Session.operands, Evaluation.withOperands] using found
    · simp [Session.operands, Evaluation.withOperands]

theorem popNumber (mirrors : first.Mirrors spare (0 :: numbers) pairs second) :
    Agree
      (fun word after twin otherAfter => word = twin ∧
        after.Mirrors spare (lowered numbers) pairs otherAfter)
      (Exec.pop first) (Exec.pop second) := by
  refine mirrors.pop.mono ?_
  rintro word after twin otherAfter ⟨relates, lower, operands, _⟩
  have plain := mirrors.plain 0 List.mem_cons_self word (by simp [operands])
  exact ⟨(mirrors.heaps.eq_of_isRef relates plain).symm, lower⟩

theorem popInt (mirrors : first.Mirrors spare (0 :: numbers) pairs second) :
    Agree
      (fun value after other otherAfter => value = other ∧
        after.Mirrors spare (lowered numbers) pairs otherAfter)
      (Exec.popInt first) (Exec.popInt second) := by
  refine mirrors.popNumber.bind ?_
  rintro word after _ otherAfter ⟨rfl, lower⟩
  exact .ok ⟨rfl, lower⟩

theorem popFloat (mirrors : first.Mirrors spare (0 :: numbers) pairs second) :
    Agree
      (fun value after other otherAfter => value = other ∧
        after.Mirrors spare (lowered numbers) pairs otherAfter)
      (Exec.popFloat first) (Exec.popFloat second) := by
  refine mirrors.popNumber.bind ?_
  rintro word after _ otherAfter ⟨rfl, lower⟩
  exact .ok ⟨rfl, lower⟩

theorem peek_nil (empty : session.operands = []) :
    Exec.peek session = .error (.peekBehind 0 0) session := by
  have nothing : session.executor.eval.items = #[] := by simpa [Session.operands] using empty
  simp [Exec.peek, Exec.peekBehind, EvalStack.peekBehind, nothing]

theorem peek_cons {rest : List Word} (top : session.operands = word :: rest) :
    Exec.peek session = .ok word session := by
  obtain ⟨below, items, _⟩ := Evaluation.exists_push_of_reverse top
  simp [Exec.peek, Exec.peekBehind, EvalStack.peekBehind, items]

theorem peek (mirrors : first.Mirrors spare numbers pairs second) :
    Agree
      (fun word after twin otherAfter => pairs.Relates word twin ∧
        first.operands.head? = some word ∧ after = first ∧ otherAfter = second)
      (Exec.peek first) (Exec.peek second) := by
  have related := mirrors.operands
  cases operands : first.operands with
  | nil =>
    rw [operands] at related
    rw [peek_nil operands, peek_nil (List.forall₂_nil_left_iff.1 related)]
    exact mirrors.fault _
  | cons word rest =>
    rw [operands] at related
    obtain ⟨twin, otherRest, head, _, others⟩ := List.forall₂_cons_left_iff.1 related
    rw [peek_cons operands, peek_cons others]
    exact .ok ⟨head, rfl, rfl, rfl⟩

/-- The top operands are taken off together. -/
theorem popMany (mirrors : first.Mirrors spare numbers pairs second) (count : Nat) :
    Agree
      (fun words after twins otherAfter =>
        List.Forall₂ pairs.Relates words.toList twins.toList ∧
          after.Mirrors spare [] pairs otherAfter)
      (Exec.popMany count first) (Exec.popMany count second) := by
  have size := mirrors.executor.itemsSize
  have items := mirrors.executor.items
  obtain ⟨own, shared⟩ := first
  obtain ⟨other, otherShared⟩ := second
  simp only [Exec.popMany, Exec.onEval, EvalStack.popMany] at size ⊢
  rw [size]
  by_cases enough : count ≤ own.eval.items.size
  · rw [if_pos enough, if_pos enough]
    refine .ok ⟨?_, mirrors.withExecutors (mirrors.executor.withItems ?_)⟩
    · rw [Array.toList_extract, Array.toList_extract, List.extract_eq_take_drop,
        List.extract_eq_take_drop]
      exact List.forall₂_take _ (List.forall₂_drop _ items)
    · rw [Array.toList_shrink, Array.toList_shrink]
      exact List.forall₂_take _ items
  · rw [if_neg enough, if_neg enough]
    exact mirrors.fault _

/-- Related words are put on top, unless the stacks are full. -/
theorem push (mirrors : first.Mirrors spare numbers pairs second)
    (relates : pairs.Relates word twin) :
    Agree (fun _ after _ otherAfter => after.Mirrors spare [] pairs otherAfter)
      (Exec.push word first) (Exec.push twin second) :=
  mirrors.modifyExecutor (mirrors.executor.push relates)

theorem pushEnds (mirrors : first.Mirrors (spare + 1) numbers pairs second)
    (relates : pairs.Relates word twin) :
    Agree (Ends spare) (Exec.push word first) (Exec.push twin second) :=
  agree_ends (mirrors.push relates)

theorem pushInt (mirrors : first.Mirrors (spare + 1) numbers pairs second) (value : Int32) :
    Agree (Ends spare) (Exec.pushInt value first) (Exec.pushInt value second) :=
  mirrors.pushEnds (.same (Or.inl (Word.isRef_ofInt value)))

theorem pushBool (mirrors : first.Mirrors (spare + 1) numbers pairs second) (value : Bool) :
    Agree (Ends spare) (Exec.pushBool value first) (Exec.pushBool value second) :=
  mirrors.pushEnds (.same (Or.inl (Word.isRef_ofBool value)))

theorem pushFloat (mirrors : first.Mirrors (spare + 1) numbers pairs second)
    (bits : Number.Single) :
    Agree (Ends spare) (Exec.pushFloat bits first) (Exec.pushFloat bits second) :=
  mirrors.pushEnds (.same (Or.inl (Word.isRef_ofFloat bits)))

theorem pushAll (mirrors : first.Mirrors spare numbers pairs second) {words twins : Array Word}
    (related : List.Forall₂ pairs.Relates words.toList twins.toList) :
    Agree (fun _ after _ otherAfter => after.Mirrors spare [] pairs otherAfter)
      ((words.forM Exec.push : Exec Unit) first) ((twins.forM Exec.push : Exec Unit) second) := by
  obtain ⟨items⟩ := words
  obtain ⟨others⟩ := twins
  rw [Array.forM_eq_forM, Array.forM_eq_forM, List.forM_toArray, List.forM_toArray]
  replace related : List.Forall₂ pairs.Relates items others := related
  replace mirrors := mirrors.weaken (Nat.le_refl spare)
  induction related generalizing first second with
  | nil => exact .ok mirrors
  | @cons word twin rest otherRest relates _ ih =>
    change Agree _ ((Exec.push word >>= fun _ => rest.forM Exec.push) first)
      ((Exec.push twin >>= fun _ => otherRest.forM Exec.push) second)
    refine (mirrors.push relates).bind ?_
    exact fun _ _ _ _ after => ih after

/-! ## The heap -/

theorem look (mirrors : first.Mirrors spare numbers pairs second) {view : Heap → Except Fault α}
    {otherView : Heap → Except Fault β} {post : α → β → Prop}
    (alike : Heap.Alike post (view first.shared.heap) (otherView second.shared.heap)) :
    Agree
      (fun value after other otherAfter => post value other ∧ after = first ∧ otherAfter = second)
      (Exec.look view first) (Exec.look otherView second) := by
  unfold Exec.look
  generalize view first.shared.heap = seen at alike
  generalize otherView second.shared.heap = otherSeen at alike
  cases alike with
  | ok holds => exact .ok ⟨holds, rfl, rfl⟩
  | error fault => exact mirrors.fault fault

theorem lookEq (mirrors : first.Mirrors spare numbers pairs second)
    {view otherView : Heap → Except Fault α}
    (equal : view first.shared.heap = otherView second.shared.heap) :
    Agree
      (fun value after other otherAfter => value = other ∧ after = first ∧ otherAfter = second)
      (Exec.look view first) (Exec.look otherView second) := by
  refine mirrors.look ?_
  rw [equal]
  cases otherView second.shared.heap with
  | ok value => exact .ok rfl
  | error fault => exact .error fault

theorem withHeaps (mirrors : first.Mirrors spare numbers pairs second) {heap other : Heap}
    (heaps : heap.Mirrors pairs other) (size : heap.slots.size = first.shared.heap.slots.size)
    (otherSize : other.slots.size = second.shared.heap.slots.size) :
    Session.Mirrors spare numbers pairs ⟨first.executor, { first.shared with heap }⟩
      ⟨second.executor, { second.shared with heap := other }⟩ where
  executor := mirrors.executor
  shared := mirrors.shared.withHeaps heaps
  room := by
    have room := mirrors.room
    rw [← size] at room
    exact room
  otherRoom := by
    have room := mirrors.otherRoom
    rw [← otherSize] at room
    exact room
  plain := mirrors.plain

/-- Texts are read alike, and remembered in both heaps. -/
theorem text (mirrors : first.Mirrors spare numbers pairs second)
    (relates : pairs.Relates word twin) :
    Agree
      (fun value after other otherAfter => value = other ∧
        after.Mirrors spare numbers pairs otherAfter)
      (Exec.text word first) (Exec.text twin second) := by
  have whole : Agree
      (fun value after other otherAfter => value = other ∧ after = first ∧ otherAfter = second)
      (Exec.look (·.text word) first) (Exec.look (·.text twin) second) :=
    mirrors.lookEq (mirrors.heaps.text_eq relates)
  refine (mirrors.look (mirrors.heaps.deref relates)).bind ?_
  rintro ⟨size, payload⟩ _ ⟨otherSize, other⟩ _ ⟨⟨member, payloads⟩, rfl, rfl⟩
  have unchanged := whole.mono fun value after other otherAfter holds =>
    show value = other ∧ after.Mirrors spare numbers pairs otherAfter by
      obtain ⟨rfl, rfl, rfl⟩ := holds
      exact ⟨rfl, mirrors⟩
  cases payloads with
  | string text => exact .ok ⟨rfl, mirrors⟩
  | link byte flat previous =>
    cases flat with
    | some text => exact unchanged
    | none =>
      refine whole.bind ?_
      rintro text _ _ _ ⟨rfl, rfl, rfl⟩
      exact .ok ⟨rfl, mirrors.withHeaps (mirrors.heaps.remember member text)
        Array.size_modify Array.size_modify⟩
  | struct fields => exact unchanged
  | long value => exact unchanged
  | pending target arguments => exact unchanged
  | forced value => exact unchanged

theorem popText (mirrors : first.Mirrors spare numbers pairs second) :
    Agree
      (fun value after other otherAfter => value = other ∧
        after.Mirrors spare (lowered numbers) pairs otherAfter)
      (Exec.popText first) (Exec.popText second) := by
  refine mirrors.pop.bind ?_
  rintro word after twin otherAfter ⟨relates, lower, _, _⟩
  exact lower.text relates

theorem popLong (mirrors : first.Mirrors spare numbers pairs second) :
    Agree
      (fun value after other otherAfter => value = other ∧
        after.Mirrors spare (lowered numbers) pairs otherAfter)
      (Exec.popLong first) (Exec.popLong second) := by
  refine mirrors.pop.bind ?_
  rintro word after twin otherAfter ⟨relates, lower, _, _⟩
  refine (lower.lookEq (lower.heaps.long_eq relates)).mono ?_
  rintro value _ _ _ ⟨rfl, rfl, rfl⟩
  exact ⟨rfl, lower⟩

theorem hasRoom (mirrors : first.Mirrors spare numbers pairs second) (size : Nat) :
    first.shared.heap.hasRoom size = true ∧ second.shared.heap.hasRoom size = true := by
  have unlimited := mirrors.heaps.firstTidy.unlimited
  have otherUnlimited := mirrors.heaps.secondTidy.unlimited
  simp [Heap.hasRoom, unlimited, otherUnlimited]

/-- Alike objects are made in both heaps. -/
theorem allocate (mirrors : first.Mirrors (spare + 1) numbers pairs second)
    {payload other : Payload} (payloads : pairs.Payloads pairs payload other) :
    Agree
      (fun made after otherMade otherAfter => ∃ word twin, made = some word ∧
        otherMade = some twin ∧ after.Mirrors spare [] ((word, twin) :: pairs) otherAfter)
      (Exec.allocate? payload first) (Exec.allocate? other second) := by
  obtain ⟨own, ownShared⟩ := first
  obtain ⟨twin, twinShared⟩ := second
  have room : ownShared.heap.slots.size + (spare + 1) < 2 ^ 32 := mirrors.room
  have otherRoom : twinShared.heap.slots.size + (spare + 1) < 2 ^ 32 := mirrors.otherRoom
  have shared : ownShared.Mirrors pairs twinShared := mirrors.shared
  have before : ownShared.heap.Mirrors pairs twinShared.heap := mirrors.heaps
  have heaps := before.allocate payloads (by omega) (by omega)
  have size := Exec.allocate_size ownShared.heap payload
  have otherSize := Exec.allocate_size twinShared.heap other
  have hasRoom := (mirrors.hasRoom (Heap.headerSize + payload.size)).1
  have otherHasRoom := (mirrors.hasRoom (Heap.headerSize + other.size)).2
  simp only [Exec.allocate?, Shared.allocate, hasRoom, otherHasRoom, if_true]
  refine .ok ⟨_, _, rfl, rfl, mirrors.executor.mono (List.subset_cons_self _ _), ?_, ?_, ?_, nofun⟩
  · simp only
    exact (shared.withHeaps heaps).log _ _
  · simp only [Shared.log_heap]
    omega
  · simp only [Shared.log_heap]
    omega

/-- References to alike objects are put on top. -/
theorem pushNew (mirrors : first.Mirrors (spare + 1) numbers pairs second) {payload other : Payload}
    (payloads : pairs.Payloads pairs payload other) :
    Agree (Ends spare) (Exec.pushNew payload first) (Exec.pushNew other second) := by
  refine (mirrors.allocate payloads).bind ?_
  rintro _ after _ otherAfter ⟨word, twin, rfl, rfl, made⟩
  refine (made.push (.paired List.mem_cons_self)).mono ?_
  exact fun _ _ _ _ pushed => ⟨_, pushed⟩

theorem pushString (mirrors : first.Mirrors (spare + 1) numbers pairs second) (text : Bytes) :
    Agree (Ends spare) (Exec.pushString text first) (Exec.pushString text second) :=
  mirrors.pushNew (.string text)

theorem pushLong (mirrors : first.Mirrors (spare + 1) numbers pairs second) (value : Int64) :
    Agree (Ends spare) (Exec.pushLong value first) (Exec.pushLong value second) := by
  refine Agree.ite (fun _ => ?_) fun _ => mirrors.pushNew (.long value)
  exact mirrors.pushEnds (.same (Or.inl (Word.isRef_ofInlineLong value)))

/-! ## The platform -/

theorem platform (mirrors : first.Mirrors spare numbers pairs second) :
    Agree
      (fun platform after other otherAfter => platform = other ∧ after = first ∧
        otherAfter = second)
      (Exec.platform first) (Exec.platform second) :=
  .ok ⟨mirrors.shared.platform_eq, rfl, rfl⟩

theorem modifyPlatform (mirrors : first.Mirrors spare numbers pairs second)
    (change : Platform → Platform) :
    Agree (fun _ after _ otherAfter => after.Mirrors spare numbers pairs otherAfter)
      (Exec.modifyPlatform change first) (Exec.modifyPlatform change second) :=
  .ok ⟨mirrors.executor, mirrors.shared.withPlatform change, mirrors.room, mirrors.otherRoom,
    mirrors.plain⟩

theorem setPlatform (mirrors : first.Mirrors spare numbers pairs second) (platform : Platform) :
    Agree (fun _ after _ otherAfter => after.Mirrors spare numbers pairs otherAfter)
      (Exec.setPlatform platform first) (Exec.setPlatform platform second) :=
  mirrors.modifyPlatform fun _ => platform

end Session.Mirrors

end WordMachine
