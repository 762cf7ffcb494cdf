import WordMachine.Machine.Sharing
import WordMachine.Proofs.Operands

/-!
Requests for one lazy call leave the value that was stored first, in any order of their steps. The
body may be carried out several times, and a request that looked before that value was stored but
loads after it finds no arguments.
-/

namespace WordMachine

/-! ## One request at a time -/

namespace Heap

variable {heap : Heap} {word : Word} {call : Delayed}

theorem contains_of_delayed (known : heap.delayed word = .ok call) :
    heap.Contains word (.lazy call) := by
  unfold delayed view at known
  split at known
  · cases known
  · next object found =>
    obtain ⟨size, payload⟩ := object
    cases payload <;> cases known
    exact ⟨size, found⟩

/-- A result is stored in a lazy call unless there is one already, and the stored one is given
back. -/
theorem force_store (known : heap.delayed word = .ok call) (result : Word) :
    ∃ value after,
      heap.force word result = .ok (value, after) ∧
        (call.store result).value? = some value ∧
          after.delayed word = .ok (call.store result) := by
  unfold force
  rw [known]
  cases call with
  | forced first => exact ⟨first, heap, rfl, rfl, known⟩
  | pending target arguments =>
    refine ⟨result, heap.setPayload word (.lazy (.forced result)), rfl, rfl, ?_⟩
    have contains := contains_of_delayed known
    obtain ⟨_, _, changed⟩ :=
      contains_modify contains (setPayload_slots heap word (.lazy (.forced result))) contains
    rw [if_pos rfl] at changed
    exact delayed_of_contains changed

end Heap

namespace Exec

open Evaluation (exec_bind exec_look exec_pop withOperands)

variable {session : Session} {word : Word} {call : Delayed}

/-- Where a request finds the value of a lazy call, it takes it. -/
theorem force_of_value {value : Word} (asked : peek session = .ok word session)
    (known : session.shared.heap.delayed word = .ok call) (found : call.value? = some value) :
    force session = (do let _ ← pop; push value : Exec Unit) session := by
  cases call with
  | pending target arguments => cases found
  | forced first =>
    cases found
    unfold force
    rw [exec_bind asked, exec_bind (exec_look (·.delayed word) known)]

/-- Where it finds none, it opens a frame and loads the arguments that are kept for the call. -/
theorem force_of_arguments (asked : peek session = .ok word session)
    (known : session.shared.heap.delayed word = .ok call) (missing : call.value? = none) :
    ∃ target, call = .pending target call.arguments ∧
      force session =
        (do
          if ← enter true then
            call.arguments.forM push
            jump target : Exec Unit) session := by
  cases call with
  | forced first => cases missing
  | pending target arguments =>
    refine ⟨target, rfl, ?_⟩
    unfold force
    rw [exec_bind asked, exec_bind (exec_look (·.delayed word) known)]
    rfl

/-- The return of the body stores its result in the call, and pushes the value that the call has
then. -/
theorem ret_of_lazy {frame : Frame} {below : Array Word} {result : Word}
    (last : session.executor.calls.frames.back? = some frame) (isLazy : frame.lazy = true)
    (items : session.executor.eval.items = (below.push word).push result)
    (known : session.shared.heap.delayed word = .ok call) :
    ∃ value heap,
      (call.store result).value? = some value ∧
        heap.delayed word = .ok (call.store result) ∧
          ret session = push value
            ⟨{ session.executor with
                ip := frame.returnTo
                eval := ⟨session.executor.eval.capacity, below⟩
                consts := session.executor.consts.release.leave frame.base frame.top
                calls := ⟨session.executor.calls.limit, session.executor.calls.frames.pop⟩ },
              { session.shared with heap }⟩ := by
  obtain ⟨value, heap, forced, stored, kept⟩ := Heap.force_store known result
  refine ⟨value, heap, stored, kept, ?_⟩
  let left : Session :=
    { session with
      executor :=
        { session.executor with
          ip := frame.returnTo
          consts := session.executor.consts.release.leave frame.base frame.top
          calls := ⟨session.executor.calls.limit, session.executor.calls.frames.pop⟩ } }
  have returned : ret session = (do
      let result ← pop
      let word ← pop
      let found ← look (·.force word result)
      modifyHeap fun _ => found.2
      push found.1 : Exec Unit) left := by
    unfold ret
    simp only [bind, EStateM.bind, last, isLazy, modifyExecutor]
    rfl
  have popped : pop left = .ok result (withOperands left (below.push word)) := exec_pop items
  have looked : look (·.force word result) (withOperands left below) =
      .ok (value, heap) (withOperands left below) := exec_look _ forced
  rw [returned, exec_bind popped, exec_bind (exec_pop rfl)]
  exact exec_bind looked

end Exec

/-! ## Any order of steps -/

theorem Request.advance_look (call : Delayed) :
    Request.advance call .looking .look = some (call.value?.elim .entering .served) := by
  cases call <;> rfl

/-- What a request may hold when some results were to be stored: a request that is past its store
finds the first of them, and arguments are only missing once there is one. -/
def Request.Fits (arguments : Array Word) (results : List Word) : Request → Prop
  | .evaluating started => started = arguments ∨ started = #[] ∧ results ≠ []
  | .taking => results ≠ []
  | .served value => results.head? = some value
  | _ => True

/-- What holds of a lazy call and the requests for it at any time. -/
structure Sharing.Invariant (target : UInt32) (arguments : Array Word) (sharing : Sharing) :
    Prop where
  call : sharing.call =
    match sharing.results.head? with
    | none => .pending target arguments
    | some first => .forced first
  fits : ∀ request ∈ sharing.requests, request.Fits arguments sharing.results

section

variable {target : UInt32} {arguments : Array Word}
variable {sharing : Sharing}

theorem Request.Fits.append {results : List Word} {request : Request}
    (fits : request.Fits arguments results) (result : Word) :
    request.Fits arguments (results ++ [result]) := by
  cases request with
  | evaluating started => exact fits.imp_right fun lost => ⟨lost.1, by simp⟩
  | taking => exact List.append_ne_nil_of_left_ne_nil fits [result]
  | served value =>
    obtain ⟨rest, same⟩ := List.head?_eq_some_iff.1 (show results.head? = some value from fits)
    rw [same]
    rfl
  | _ => trivial

theorem Sharing.Invariant.value? (invariant : sharing.Invariant target arguments) :
    sharing.call.value? = sharing.results.head? := by
  rw [invariant.call]
  cases sharing.results.head? <;> rfl

theorem Sharing.Invariant.store (invariant : sharing.Invariant target arguments) (result : Word) :
    Sharing.Invariant target arguments
      { sharing with
        call := sharing.call.store result
        results := sharing.results ++ [result] } where
  call := by
    rw [invariant.call]
    cases same : sharing.results with
    | nil => rfl
    | cons first rest => rfl
  fits := fun request member => (invariant.fits request member).append result

theorem Sharing.Invariant.advance (invariant : sharing.Invariant target arguments)
    {request after : Request} {advance : Advance} (member : request ∈ sharing.requests)
    (advances : request.advance sharing.call advance = some after) :
    (sharing.afterStep request advance).Invariant target arguments ∧
      after.Fits arguments (sharing.afterStep request advance).results := by
  have fits := invariant.fits request member
  cases request with
  | looking =>
    cases advance with
    | look =>
      rw [Request.advance_look] at advances
      cases found : sharing.call.value? with
      | none =>
        rw [found] at advances
        cases advances
        exact ⟨invariant, trivial⟩
      | some value =>
        rw [found] at advances
        cases advances
        exact ⟨invariant, invariant.value?.symm.trans found⟩
    | _ => cases advances
  | entering =>
    cases advance with
    | enter room =>
      cases advances
      refine ⟨invariant, ?_⟩
      cases room <;> exact trivial
    | _ => cases advances
  | loading =>
    cases advance with
    | load =>
      cases advances
      refine ⟨invariant, ?_⟩
      rw [invariant.call]
      cases same : sharing.results with
      | nil => exact Or.inl rfl
      | cons first rest =>
        refine Or.inr ⟨rfl, ?_⟩
        simp [Sharing.afterStep, same]
    | _ => cases advances
  | evaluating started =>
    cases advance with
    | instruction =>
      cases advances
      exact ⟨invariant, fits⟩
    | finish result =>
      cases advances
      exact ⟨invariant, trivial⟩
    | fail =>
      cases advances
      exact ⟨invariant, trivial⟩
    | _ => cases advances
  | storing result =>
    cases advance with
    | store =>
      cases advances
      refine ⟨invariant.store result, ?_⟩
      change sharing.results ++ [result] ≠ []
      simp
    | _ => cases advances
  | taking =>
    cases advance with
    | take =>
      cases advances
      refine ⟨invariant, ?_⟩
      obtain ⟨first, rest, same⟩ := List.exists_cons_of_ne_nil
        (show sharing.results ≠ [] from fits)
      have found : sharing.call.value? = some first := by
        rw [invariant.value?, same]
        rfl
      change sharing.results.head? = some (sharing.call.value?.getD 0)
      rw [found, same]
      rfl
    | _ => cases advances
  | served value => cases advance <;> cases advances
  | stopped => cases advance <;> cases advances

theorem Sharing.Invariant.step {next : Sharing} {demand : Demand}
    (invariant : sharing.Invariant target arguments) (steps : sharing.step demand = some next) :
    next.Invariant target arguments := by
  cases demand with
  | ask =>
    cases steps
    refine ⟨invariant.call, ?_⟩
    intro request member
    rcases List.mem_append.1 member with old | new
    · exact invariant.fits request old
    · cases List.mem_singleton.1 new
      trivial
  | advance position advance =>
    simp only [Sharing.step] at steps
    split at steps
    · cases steps
    · next request found =>
      obtain ⟨after, advances, rfl⟩ := Option.map_eq_some_iff.1 steps
      obtain ⟨kept, fits⟩ := invariant.advance (List.mem_of_getElem? found) advances
      have requests : (sharing.afterStep request advance).requests = sharing.requests := by
        unfold Sharing.afterStep
        split <;> rfl
      refine ⟨kept.call, ?_⟩
      intro other member
      rcases List.mem_or_eq_of_mem_set member with old | rfl
      · exact kept.fits other (requests ▸ old)
      · exact fits

theorem Sharing.Invariant.run {after : Sharing} {demands : List Demand}
    (invariant : sharing.Invariant target arguments) (runs : sharing.run demands = some after) :
    after.Invariant target arguments := by
  induction demands generalizing sharing with
  | nil =>
    cases runs
    exact invariant
  | cons demand demands ih =>
    simp only [Sharing.run] at runs
    split at runs
    · next next steps => exact ih (invariant.step steps) runs
    · cases runs

theorem Sharing.invariant_start (target : UInt32) (arguments : Array Word) :
    Sharing.Invariant target arguments { call := .pending target arguments } where
  call := rfl
  fits := nofun

end

end WordMachine
