import WordMachine.Machine.Registry

/-!
While a collection is in progress no executor carries out an instruction. The flags of an executor
say where it stands, and a request stands for every executor as long as the collector is not idle;
so an executor that was stopped meets the request wherever it goes next.
-/

namespace WordMachine

variable {party : Party} {world after : World} {collector : CollectorPhase} {registry : Registry}
variable {id : Nat}

/-- Where an executor may stand during a collection: it meets its request before anything else. -/
def Phase.AtRest : Phase → Prop
  | .polling => True
  | .parking => True
  | .parked => True
  | .blocked => True
  | .leaving => True
  | _ => False

/-- What the flags of an executor say at each phase of the collector. -/
structure Party.Fits (collector : CollectorPhase) (party : Party) : Prop where
  requested : collector ≠ .idle → party.pauseRequested = true
  parked : party.parked = true ↔ party.phase = .parked
  paused : party.paused = true ↔ party.phase = .blocked ∨ party.phase = .leaving
  atRest : collector = .collecting → party.phase.AtRest

/-- What holds of the executors and the collector at any time. -/
structure World.Invariant (world : World) : Prop where
  fits : ∀ party ∈ world.registry.parties, party.Fits world.collector
  active : world.registry.collecting = true ↔ world.collector ≠ .idle
  numbered : ∀ party ∈ world.registry.parties, party.id ≤ world.registry.lastId
  distinct : (world.registry.parties.map Party.id).Nodup

/-! ## Steps of an executor -/

theorem Party.act_id {after : Party} {act : Act} (acts : party.act act = some after) :
    after.id = party.id := by
  cases act with
  | enterSafepoint =>
    simp only [Party.act, Option.ite_none_right_eq_some, Option.some.injEq] at acts
    obtain ⟨_, rfl⟩ := acts
    unfold testSafepoint
    split <;> rfl
  | wakeSafepoint =>
    simp only [Party.act, Option.ite_none_right_eq_some, Option.some.injEq] at acts
    obtain ⟨_, rfl⟩ := acts
    unfold testSafepoint
    split <;> rfl
  | _ =>
    simp only [Party.act, Option.ite_none_right_eq_some, Option.some.injEq] at acts
    obtain ⟨_, rfl⟩ := acts
    rfl

theorem Party.fits_testSafepoint (requested : collector ≠ .idle → party.pauseRequested = true)
    (parked : party.parked = true) (paused : party.paused = false) :
    party.testSafepoint.Fits collector := by
  unfold testSafepoint
  by_cases asked : party.pauseRequested = true
  · rw [if_pos asked]
    exact ⟨requested, by simp [parked], by simp [paused], fun _ => trivial⟩
  · rw [if_neg asked]
    refine ⟨fun notIdle => absurd (requested notIdle) asked, by simp, by simp [paused], ?_⟩
    intro collecting
    refine absurd (requested ?_) asked
    rw [collecting]
    decide

theorem Party.Fits.not_paused (fits : party.Fits collector)
    (elsewhere : ¬ (party.phase = .blocked ∨ party.phase = .leaving)) : party.paused = false :=
  Bool.eq_false_iff.2 fun paused => elsewhere (fits.paused.1 paused)

theorem Party.Fits.not_parked (fits : party.Fits collector) (elsewhere : party.phase ≠ .parked) :
    party.parked = false :=
  Bool.eq_false_iff.2 fun parked => elsewhere (fits.parked.1 parked)

/-- While a collection is in progress the request stands. -/
theorem Party.Fits.requested_of_collecting (fits : party.Fits .collecting) :
    party.pauseRequested = true :=
  fits.requested (by decide)

/-- No step of an executor is an instruction, or the way out of a blocking call, during a
collection. -/
theorem Party.Fits.act_advances {after : Party} {act : Act} (fits : party.Fits .collecting)
    (acts : party.act act = some after) : act.advances = false := by
  have atRest := fits.atRest rfl
  have requested := fits.requested_of_collecting
  cases act with
  | instruction ending =>
    simp only [Party.act, Option.ite_none_right_eq_some] at acts
    rw [acts.1] at atRest
    exact atRest.elim
  | finish ending =>
    simp only [Party.act, Option.ite_none_right_eq_some] at acts
    rw [acts.1] at atRest
    exact atRest.elim
  | leavePaused =>
    simp only [Party.act, Option.ite_none_right_eq_some, requested] at acts
    exact absurd acts.1.2 (by decide)
  | _ => rfl

/-- An executor that is not at rest is not stopped by any collection, so it may go on to any phase
without a flag. -/
theorem Party.Fits.goOn {phase : Phase} (fits : party.Fits collector) (busy : ¬ party.phase.AtRest)
    (unflagged : phase ≠ .parked ∧ phase ≠ .blocked ∧ phase ≠ .leaving) :
    Fits collector { party with phase } := by
  obtain ⟨notParked, notBlocked, notLeaving⟩ := unflagged
  have parked : party.parked = false := by
    refine fits.not_parked fun same => busy ?_
    rw [same]
    trivial
  have paused : party.paused = false := by
    refine fits.not_paused ?_
    rintro (same | same)
    · exact busy (by rw [same]; trivial)
    · exact busy (by rw [same]; trivial)
  exact ⟨fits.requested, by simp [parked, notParked], by simp [paused, notBlocked, notLeaving],
    fun collecting => absurd (fits.atRest collecting) busy⟩

/-- An executor counts as stopped by its flags, and the flags tell where it stands. -/
theorem Party.Fits.atRest_of_stopped (fits : party.Fits collector)
    (stopped : party.stopped = true) : party.phase.AtRest := by
  rcases (Bool.or_eq_true _ _).mp stopped with parked | paused
  · rw [fits.parked.1 parked]
    trivial
  · rcases fits.paused.1 paused with phase | phase
    · rw [phase]
      trivial
    · rw [phase]
      trivial

theorem Ending.unflagged (ending : Ending) :
    ending.phase ≠ .parked ∧ ending.phase ≠ .blocked ∧ ending.phase ≠ .leaving := by
  cases ending <;> decide

/-- A step of an executor leaves its flags in agreement with where it stands. -/
theorem Party.Fits.act {after : Party} {act : Act} (fits : party.Fits collector)
    (acts : party.act act = some after) : after.Fits collector := by
  cases act with
  | poll =>
    simp only [Party.act, Option.ite_none_right_eq_some, Option.some.injEq] at acts
    obtain ⟨phase, rfl⟩ := acts
    have parked := fits.not_parked (by simp [phase])
    have paused := fits.not_paused (by simp [phase])
    by_cases asked : party.pauseRequested = true
    · exact ⟨fits.requested, by simp [parked, asked], by simp [paused, asked],
        fun _ => by simp [asked, Phase.AtRest]⟩
    · refine ⟨fits.requested, by simp [parked, asked], by simp [paused, asked], ?_⟩
      rintro rfl
      exact absurd fits.requested_of_collecting asked
  | enterSafepoint =>
    simp only [Party.act, Option.ite_none_right_eq_some, Option.some.injEq] at acts
    obtain ⟨phase, rfl⟩ := acts
    exact fits_testSafepoint fits.requested rfl (fits.not_paused (by simp [phase]))
  | wakeSafepoint =>
    simp only [Party.act, Option.ite_none_right_eq_some, Option.some.injEq] at acts
    obtain ⟨phase, rfl⟩ := acts
    exact fits_testSafepoint fits.requested (fits.parked.2 phase)
      (fits.not_paused (by simp [phase]))
  | check =>
    simp only [Party.act, Option.ite_none_right_eq_some, Option.some.injEq] at acts
    obtain ⟨phase, rfl⟩ := acts
    refine fits.goOn (by simp [phase, Phase.AtRest]) ?_
    cases party.aborted <;> decide
  | instruction ending =>
    simp only [Party.act, Option.ite_none_right_eq_some, Option.some.injEq] at acts
    obtain ⟨phase, rfl⟩ := acts
    exact fits.goOn (by simp [phase, Phase.AtRest]) ending.unflagged
  | enterPaused =>
    simp only [Party.act, Option.ite_none_right_eq_some, Option.some.injEq] at acts
    obtain ⟨phase, rfl⟩ := acts
    have parked := fits.not_parked (by simp [phase])
    exact ⟨fits.requested, by simp [parked], by simp, fun _ => trivial⟩
  | holdPaused =>
    simp only [Party.act, Option.ite_none_right_eq_some, Option.some.injEq] at acts
    obtain ⟨⟨phase, _⟩, rfl⟩ := acts
    have parked := fits.not_parked (by rcases phase with phase | phase <;> simp [phase])
    exact ⟨fits.requested, by simp [parked], by simp [fits.paused.2 phase], fun _ => trivial⟩
  | leavePaused =>
    simp only [Party.act, Option.ite_none_right_eq_some, Option.some.injEq] at acts
    obtain ⟨⟨phase, notAsked⟩, rfl⟩ := acts
    have parked := fits.not_parked (by rcases phase with phase | phase <;> simp [phase])
    refine ⟨fits.requested, by simp [parked], by simp, ?_⟩
    rintro rfl
    simp [fits.requested_of_collecting] at notAsked
  | finish ending =>
    simp only [Party.act, Option.ite_none_right_eq_some, Option.some.injEq] at acts
    obtain ⟨phase, rfl⟩ := acts
    exact fits.goOn (by simp [phase, Phase.AtRest]) ending.unflagged

/-! ## Steps of the world -/

theorem Registry.mem_of_party? (found : registry.party? id = some party) :
    party ∈ registry.parties ∧ party.id = id := by
  refine ⟨List.mem_of_find?_eq_some found, ?_⟩
  simpa using List.find?_some found

theorem Registry.map_id_replace (same : party.id = id) :
    (registry.replace id party).parties.map Party.id = registry.parties.map Party.id := by
  unfold Registry.replace
  rw [List.map_map]
  refine List.map_congr_left fun other _ => ?_
  change (if other.id = id then party else other).id = other.id
  split
  · next equal => rw [same, equal]
  · rfl

theorem World.Invariant.change_all (invariant : world.Invariant) (change : Party → Party)
    (parties : registry.parties = world.registry.parties.map change)
    (lastId : registry.lastId = world.registry.lastId)
    (keepsId : ∀ party, (change party).id = party.id)
    (fits : ∀ party ∈ world.registry.parties, party.Fits world.collector →
      (change party).Fits collector) (active : registry.collecting = true ↔ collector ≠ .idle) :
    World.Invariant ⟨registry, collector⟩ where
  fits := by
    intro party member
    rw [parties] at member
    obtain ⟨before, beforeMember, rfl⟩ := List.mem_map.1 member
    exact fits before beforeMember (invariant.fits before beforeMember)
  active := active
  numbered := by
    intro party member
    rw [parties] at member
    obtain ⟨before, beforeMember, rfl⟩ := List.mem_map.1 member
    change _ ≤ registry.lastId
    rw [keepsId, lastId]
    exact invariant.numbered before beforeMember
  distinct := by
    change (registry.parties.map Party.id).Nodup
    rw [parties, List.map_map, show Party.id ∘ change = Party.id from funext keepsId]
    exact invariant.distinct

theorem World.Invariant.register (invariant : world.Invariant) :
    World.Invariant { world with registry := world.registry.register } where
  fits := by
    intro party member
    rcases List.mem_cons.1 member with rfl | before
    · refine ⟨invariant.active.2, by simp, by simp, fun _ => trivial⟩
    · exact invariant.fits party before
  active := invariant.active
  numbered := by
    intro party member
    rcases List.mem_cons.1 member with rfl | before
    · exact Nat.le_refl _
    · exact Nat.le_succ_of_le (invariant.numbered party before)
  distinct := by
    refine List.nodup_cons.2 ⟨?_, invariant.distinct⟩
    intro member
    obtain ⟨party, before, same⟩ := List.mem_map.1 member
    have bound := invariant.numbered party before
    have number : party.id = world.registry.lastId + 1 := same
    omega

theorem World.Invariant.unregister (invariant : world.Invariant) (id : Nat) :
    World.Invariant { world with registry := world.registry.unregister id } where
  fits := fun party member => invariant.fits party (List.mem_filter.1 member).1
  active := invariant.active
  numbered := fun party member => invariant.numbered party (List.mem_filter.1 member).1
  distinct := invariant.distinct.sublist (List.filter_sublist.map Party.id)

theorem World.Invariant.replace (invariant : world.Invariant) (same : party.id = id)
    (known : id ≤ world.registry.lastId) (fits : party.Fits world.collector) :
    World.Invariant { world with registry := world.registry.replace id party } where
  fits := by
    intro other member
    obtain ⟨before, beforeMember, rfl⟩ := List.mem_map.1 member
    split
    · exact fits
    · exact invariant.fits before beforeMember
  active := invariant.active
  numbered := by
    intro other member
    obtain ⟨before, beforeMember, rfl⟩ := List.mem_map.1 member
    split
    · rw [same]
      exact known
    · exact invariant.numbered before beforeMember
  distinct := by
    change ((world.registry.replace id party).parties.map Party.id).Nodup
    rw [Registry.map_id_replace same]
    exact invariant.distinct

theorem World.Invariant.step {move : Move} (invariant : world.Invariant)
    (moves : world.step move = some after) : after.Invariant := by
  cases move with
  | register =>
    simp only [World.step, Option.some.injEq] at moves
    subst moves
    exact invariant.register
  | unregister id =>
    simp only [World.step] at moves
    split at moves
    · simp only [Option.ite_none_right_eq_some, Option.some.injEq] at moves
      obtain ⟨_, rfl⟩ := moves
      exact invariant.unregister id
    · cases moves
  | abort =>
    simp only [World.step, Option.some.injEq] at moves
    subst moves
    refine invariant.change_all ({ · with aborted := true }) rfl rfl (fun _ => rfl) ?_
      invariant.active
    intro party _ fits
    exact ⟨fits.requested, fits.parked, fits.paused, fits.atRest⟩
  | executor id act =>
    simp only [World.step] at moves
    split at moves
    · next party found =>
      obtain ⟨changed, acts, rfl⟩ := Option.map_eq_some_iff.1 moves
      obtain ⟨member, same⟩ := Registry.mem_of_party? found
      refine invariant.replace ((Party.act_id acts).trans same) ?_
        ((invariant.fits party member).act acts)
      rw [← same]
      exact invariant.numbered party member
    · cases moves
  | requestPause =>
    simp only [World.step, Option.ite_none_right_eq_some, Option.some.injEq] at moves
    obtain ⟨_, rfl⟩ := moves
    refine invariant.change_all ({ · with pauseRequested := true }) rfl rfl (fun _ => rfl) ?_
      (by simp [Registry.requestPause])
    intro party _ fits
    exact ⟨fun _ => rfl, fits.parked, fits.paused, fun collecting => by cases collecting⟩
  | keepWaiting =>
    simp only [World.step, Option.ite_none_right_eq_some, Option.some.injEq] at moves
    obtain ⟨_, rfl⟩ := moves
    exact invariant
  | beginCollection =>
    simp only [World.step, Option.ite_none_right_eq_some, Option.some.injEq] at moves
    obtain ⟨⟨waiting, allStopped⟩, rfl⟩ := moves
    refine invariant.change_all id (by simp) rfl (fun _ => rfl) ?_
      (by simp [invariant.active, waiting])
    intro party member fits
    have stopped : party.stopped = true := List.all_eq_true.1 allStopped party member
    exact ⟨fun _ => fits.requested (by rw [waiting]; decide), fits.parked, fits.paused,
      fun _ => fits.atRest_of_stopped stopped⟩
  | withdrawRequest =>
    simp only [World.step, Option.ite_none_right_eq_some, Option.some.injEq] at moves
    obtain ⟨_, rfl⟩ := moves
    refine invariant.change_all ({ · with pauseRequested := false }) rfl rfl (fun _ => rfl) ?_
      (by simp [Registry.withdrawRequest])
    intro party _ fits
    exact ⟨fun notIdle => absurd rfl notIdle, fits.parked, fits.paused,
      fun collecting => by cases collecting⟩

/-! ## Runs -/

theorem World.invariant_start : World.Invariant {} where
  fits := by
    intro party member
    cases member
  active := by decide
  numbered := by
    intro party member
    cases member
  distinct := List.nodup_nil

theorem World.run_append (world : World) (first second : List Move) :
    world.run (first ++ second) = (world.run first).bind (·.run second) := by
  induction first generalizing world with
  | nil => rfl
  | cons move first ih =>
    simp only [List.cons_append, World.run]
    cases world.step move with
    | none => rfl
    | some next => exact ih next

theorem World.Invariant.run (invariant : world.Invariant) {moves : List Move}
    (runs : world.run moves = some after) : after.Invariant := by
  induction moves generalizing world with
  | nil =>
    cases runs
    exact invariant
  | cons move moves ih =>
    simp only [World.run] at runs
    split at runs
    · next next moved => exact ih (invariant.step moved) runs
    · cases runs

/-- During a collection no move advances an executor, and only the collector's own end of it ends
the collection. -/
theorem World.Invariant.step_collecting {move : Move} (invariant : world.Invariant)
    (collecting : world.collector = .collecting) (moves : world.step move = some after) :
    move.advances = false ∧ (move ≠ .withdrawRequest → after.collector = .collecting) := by
  cases move with
  | executor id act =>
    simp only [World.step] at moves
    split at moves
    · next party found =>
      obtain ⟨changed, acts, rfl⟩ := Option.map_eq_some_iff.1 moves
      have fits := invariant.fits party (Registry.mem_of_party? found).1
      rw [collecting] at fits
      exact ⟨fits.act_advances acts, fun _ => collecting⟩
    · cases moves
  | unregister id =>
    simp only [World.step] at moves
    split at moves
    · simp only [Option.ite_none_right_eq_some, Option.some.injEq] at moves
      obtain ⟨_, rfl⟩ := moves
      exact ⟨rfl, fun _ => collecting⟩
    · cases moves
  | withdrawRequest => exact ⟨rfl, fun other => absurd rfl other⟩
  | requestPause => simp [World.step, collecting] at moves
  | keepWaiting => simp [World.step, collecting] at moves
  | beginCollection => simp [World.step, collecting] at moves
  | register =>
    simp only [World.step, Option.some.injEq] at moves
    subst moves
    exact ⟨rfl, fun _ => collecting⟩
  | abort =>
    simp only [World.step, Option.some.injEq] at moves
    subst moves
    exact ⟨rfl, fun _ => collecting⟩

theorem World.Invariant.run_collecting {moves : List Move} (invariant : world.Invariant)
    (collecting : world.collector = .collecting) (runs : world.run moves = some after)
    (lasting : .withdrawRequest ∉ moves) : ∀ move ∈ moves, move.advances = false := by
  induction moves generalizing world with
  | nil =>
    intro move member
    cases member
  | cons first moves ih =>
    simp only [World.run] at runs
    split at runs
    · next next moved =>
      obtain ⟨still, stays⟩ := invariant.step_collecting collecting moved
      have notEnd : first ≠ .withdrawRequest := by
        rintro rfl
        exact lasting List.mem_cons_self
      have later := ih (invariant.step moved) (stays notEnd) runs
        fun member => lasting (List.mem_cons_of_mem first member)
      intro move member
      rcases List.mem_cons.1 member with rfl | inRest
      · exact still
      · exact later move inRest
    · cases runs

/-- Whatever the order of steps, and however many executors start, end or are told to stop: from
the moment a collection begins until it lets the executors go on, none of them carries out an
instruction or goes on after a blocking call. -/
theorem no_advance_during_collection {before during : List Move} {world : World}
    (runs : World.run {} (before ++ .beginCollection :: during) = some world)
    (lasting : .withdrawRequest ∉ during) : ∀ move ∈ during, move.advances = false := by
  rw [World.run_append] at runs
  obtain ⟨start, started, rest⟩ := Option.bind_eq_some_iff.1 runs
  have invariant := World.invariant_start.run started
  simp only [World.run] at rest
  split at rest
  · next collecting begun =>
    have isCollecting : collecting.collector = .collecting := by
      simp only [World.step, Option.ite_none_right_eq_some, Option.some.injEq] at begun
      obtain ⟨_, rfl⟩ := begun
      rfl
    exact (invariant.step begun).run_collecting isCollecting rest lasting
  · cases rest

/-- A second collection begins before the executor that the first one parked has noticed, and a new
executor starts in the middle of it. -/
theorem no_advance_back_to_back :
    let before : List Move :=
      [.register, .executor 1 .poll, .executor 1 .check, .requestPause,
        .executor 1 (.instruction .continues), .executor 1 .poll, .executor 1 .enterSafepoint,
        .beginCollection, .withdrawRequest, .requestPause]
    let during : List Move :=
      [.executor 1 .wakeSafepoint, .register, .executor 2 .poll, .executor 2 .enterSafepoint]
    (World.run {} (before ++ .beginCollection :: during)).isSome = true ∧
      .withdrawRequest ∉ during ∧ ∀ move ∈ during, move.advances = false := by
  intro before during
  have possible : (World.run {} (before ++ .beginCollection :: during)).isSome = true := by decide
  obtain ⟨world, runs⟩ := Option.isSome_iff_exists.1 possible
  have lasting : .withdrawRequest ∉ during := by decide
  exact ⟨possible, lasting, no_advance_during_collection runs lasting⟩

end WordMachine
