import WordMachine.Proofs.CompiledExpressions

/-!
Compiled programs do what their evaluation says. The code of a function makes room for its
constants, stores its arguments in the inputs and does what the evaluation of its body does; as
calls use up fuel, this holds of all functions by induction on it. The code of a statement, run from
its entry point on a machine where nothing else runs, writes what the evaluation of the statement
writes and ends as it ends, or goes on for ever if the evaluation does, unless the machine reaches
one of its bounds.
-/

namespace WordMachine

open Lowering (Code CodeUnit Stands emit equalityTypes fragments funcLabel generate generate_eq_ok
  joined layout_of_joined plain slotByte statementLabel storeSlots_cons units)

namespace Evaluation

section

variable {compilation : Compilation} {site : Site compilation} {position fuel : Nat}
variable {level : Level} {operands rest : List Typed} {effects : Effects} {session : Session}
variable {func : FuncId} {decl : FuncDecl} {definition : FuncDef}

/-! ## Constants -/

/-- Room is made for the constants, which have no values at first. -/
theorem Site.leads_reserve {room : Code} (reserved : CodeUnit.reserve site.slots = .ok room)
    (placed : Placed compilation.image position room)
    (depicts : Depicts compilation position (level.config [] operands effects) session) :
    session.Leads (Depicts compilation (position + Code.size room)
      (level.config (site.window fun _ => none) operands effects)) := by
  have window : site.window (fun _ => none) = List.replicate site.slots.length none :=
    List.map_const
  unfold CodeUnit.reserve at reserved
  split at reserved
  · next empty =>
    cases reserved
    rw [window, List.isEmpty_iff.1 empty]
    exact .here depicts
  · split at reserved
    · next few =>
      cases reserved
      have count : site.slots.length.toUInt8.toNat = site.slots.length :=
        UInt8.toNat_ofNat_of_lt' few
      have reserves := depicts.reserveConsts placed.single
      rw [count] at reserves
      rw [window]
      exact reserves.leads
    · cases reserved

theorem Site.leads_storeSlots {items : List (SlotId × Typed)} {code : Code}
    {locals : SlotId → Option Value} (stored : ((items.map Prod.fst).mapM fun slot => do
      return Fragment.Command.emit (.storeConst (← slotByte slot)) : Except Lowering.Cause Code) =
        .ok code) (typed : ∀ item ∈ items, site.scope.slotType? item.1 = some item.2.1)
    (placed : Placed compilation.image position code) (depicts : Depicts compilation position
      (level.config (site.window locals) (items.map Prod.snd ++ rest) effects) session) :
    session.Leads (Depicts compilation (position + Code.size code)
      (level.config (site.window
        (items.foldl (fun locals item => setting locals item.1 (some item.2.2)) locals)) rest
        effects)) := by
  induction items generalizing code position locals session with
  | nil =>
    cases stored
    exact .here depicts
  | cons item items ih =>
    obtain ⟨byte, others, fits, restStored, rfl⟩ := storeSlots_cons stored
    have known := typed item List.mem_cons_self
    rw [Code.size_append, ← Nat.add_assoc]
    refine (site.storeSlot (some item.2.2) fits known (covers_refl item.2) placed.first.single
      depicts).leads.trans fun after shown => ?_
    exact ih restStored
      (fun other member => typed other (List.mem_cons_of_mem _ member)) placed.second shown

/-- Inputs that are stored from the last to the first hold their arguments. -/
theorem foldr_setting (items : List (SlotId × Value)) :
    items.foldr (fun item locals => setting locals item.1 (some item.2)) (fun _ => none) =
      fun slot => items.lookup slot := by
  induction items with
  | nil => rfl
  | cons item items ih =>
    funext slot
    rw [List.foldr_cons, ih, setting, List.lookup]
    by_cases same : slot = item.1
    · simp [same]
    · simp [same, beq_false_of_ne same]

theorem Scope.zip_slotTypes {scope : Scope} {slots : List SlotId} {items : List Typed}
    (typed : ∀ slot ∈ slots, ∃ type, scope.slotType? slot = some type)
    (types : scope.slotTypes slots = items.map Prod.fst) :
    slots.length = items.length ∧
      ∀ item ∈ slots.zip items, scope.slotType? item.1 = some item.2.1 := by
  induction slots generalizing items with
  | nil =>
    cases items with
    | nil => exact ⟨rfl, fun _ member => nomatch member⟩
    | cons item items => cases types
  | cons slot slots ih =>
    obtain ⟨type, known⟩ := typed slot List.mem_cons_self
    have types : type :: scope.slotTypes slots = items.map Prod.fst := by
      rw [← types, Scope.slotTypes, Scope.slotTypes, List.filterMap_cons, known]
    cases items with
    | nil => cases types
    | cons item items =>
      obtain ⟨rfl, others⟩ := List.cons.inj types
      obtain ⟨length, rest⟩ := ih
        (fun other member => typed other (List.mem_cons_of_mem _ member)) others
      refine ⟨congrArg (· + 1) length, fun other member => ?_⟩
      rcases List.mem_cons.1 member with rfl | member
      · exact known
      · exact rest other member

theorem Site.leads_storeInputs {items : List Typed} {code : Code}
    (stored : CodeUnit.storeInputs site.slots = .ok code)
    (types : site.scope.slotTypes (SlotTable.inputs site.slots) = items.map Prod.fst)
    (placed : Placed compilation.image position code) (depicts : Depicts compilation position
      (level.config (site.window fun _ => none) (items.reverse ++ rest) effects) session) :
    session.Leads (Depicts compilation (position + Code.size code)
      (level.config (site.window (bindInputs site.slots (items.map Prod.snd))) rest effects)) := by
  have each : ∀ slot ∈ SlotTable.inputs site.slots, ∃ type,
      site.scope.slotType? slot = some type := fun slot member => site.exists_slotType member
  obtain ⟨length, typed⟩ := Scope.zip_slotTypes each types
  have slots : (((SlotTable.inputs site.slots).zip items).reverse).map Prod.fst =
      (SlotTable.inputs site.slots).reverse := by
    rw [List.map_reverse, List.map_fst_zip (Nat.le_of_eq length)]
  have values : (((SlotTable.inputs site.slots).zip items).reverse).map Prod.snd =
      items.reverse := by
    rw [List.map_reverse, List.map_snd_zip (Nat.le_of_eq length.symm)]
  unfold CodeUnit.storeInputs at stored
  rw [← slots] at stored
  rw [← values] at depicts
  have leads := site.leads_storeSlots stored
    (fun item member => typed item (List.mem_reverse.1 member)) placed depicts
  rw [List.foldl_reverse] at leads
  have bound : bindInputs site.slots (items.map Prod.snd) =
      ((SlotTable.inputs site.slots).zip items).foldr
        (fun item locals => setting locals item.1 (some item.2.2)) fun _ => none := by
    have same : (SlotTable.inputs site.slots).zip (items.map Prod.snd) =
        ((SlotTable.inputs site.slots).zip items).map fun item => (item.1, item.2.2) := by
      rw [List.zip_map_right]
      rfl
    unfold bindInputs
    rw [same, ← foldr_setting, List.foldr_map]
  rw [bound]
  exact leads

/-! ## Bodies -/

theorem Agrees.body {scope : Scope} {call : Invoke} {body : Expr} {locals : SlotId → Option Value}
    {goal : Value → Effects → Session → Prop}
    (agrees : Agrees compilation State.effects fuel (evaluate scope call body ⟨locals, effects⟩)
      (fun value state => goal value state.effects) session) :
    Agrees compilation id fuel (evaluateBody scope call body locals effects) goal session := by
  unfold evaluateBody
  match evaluate scope call body ⟨locals, effects⟩, agrees with
  | .ok _ _, agrees => exact agrees
  | .error (.ended _) _, agrees => exact agrees
  | .error (.unset _) _, _ => exact trivial
  | .error .illTyped _, agrees => exact agrees
  | .error .outOfFuel _, agrees => exact agrees

/-! ## Functions -/

theorem Compilation.fits_function (declared : compilation.program.func? func = some decl)
    (usable : isUsable compilation.program compilation.usable decl = true)
    (found : compilation.program.def? func = some definition) :
    functionFits compilation.program compilation.usable decl definition = true := by
  have fits := compilation.fits
  have number := compilation.tables.func declared
  have listed : decl ∈ compilation.program.funcs.toList :=
    Array.mem_toList_iff.2 (Array.mem_of_getElem? declared)
  unfold programFits at fits
  have fits := List.all_eq_true.1 (Bool.and_eq_true_iff.1 fits).2 decl listed
  simp only [number, found, usable, Bool.not_true, Bool.false_or] at fits
  exact fits

theorem mem_userFuncs {program : Program} {usable : FuncId → Bool}
    (declared : program.func? func = some decl) (number : decl.id = func)
    (fits : isUsable program usable decl = true) : func ∈ program.userFuncs := by
  unfold isUsable at fits
  refine List.mem_filterMap.2 ⟨decl, Array.mem_toList_iff.2 (Array.mem_of_getElem? declared), ?_⟩
  rw [if_pos (Bool.and_eq_true_iff.1 fits).1, number]

def Compilation.functionSite (compilation : Compilation) (func : FuncId) (decl : FuncDecl)
    (definition : FuncDef) (declared : compilation.program.func? decl.id = some decl)
    (fits : functionFits compilation.program compilation.usable decl definition = true) :
    Site compilation where
  slots := definition.slots
  func := some decl
  labels := funcLabel func
  numbered := by
    unfold functionFits at fits
    simp only [Bool.and_eq_true] at fits
    exact fits.1.1.1.1
  inputs := by
    rintro other ⟨⟩
    unfold functionFits at fits
    simp only [Bool.and_eq_true, beq_iff_eq] at fits
    exact ⟨declared, fits.1.1.1.2, fits.1.1.2⟩

/-- A call that is made does what its evaluation does, if the calls in the function's body do. -/
theorem CallsAgree.step (calls : CallsAgree compilation fuel) :
    CallsAgree compilation (fuel + 1) := by
  refine ⟨fun {func decl items rest level effects session} declared usable inputs depicts => ?_⟩
  have number := compilation.tables.func declared
  obtain ⟨position, code, unitCode, laid, inside⟩ :=
    compilation.layout.function func (mem_userFuncs declared number usable)
  cases unitCode with
  | function _ definition room stores body found reserved stored lowered =>
    have fits := compilation.fits_function declared usable found
    let site := compilation.functionSite func decl definition (number.symm ▸ declared) fits
    unfold functionFits at fits
    simp only [Bool.and_eq_true, beq_iff_eq] at fits
    obtain ⟨⟨⟨_, inputTypes⟩, typed⟩, result⟩ := fits
    have signature : CodeUnit.signature compilation.program func = decl := by
      unfold CodeUnit.signature
      rw [declared]
      rfl
    rw [signature] at lowered laid inside
    obtain ⟨_, _, compiles⟩ := lowered.compiles
    rw [number] at laid inside
    have placed : Placed compilation.image position _ := ⟨laid, inside⟩
    simp only [List.append_assoc] at placed
    have starts : (compilation.entry func).toNat = position := placed.first.target_eq
    rw [starts] at depicts
    have calling : invoke compilation.program (fuel + 1) func (items.map Prod.snd) effects =
        evaluateBody site.scope (invoke compilation.program fuel) definition.body
          (bindInputs definition.slots (items.map Prod.snd)) effects := by
      simp only [invoke, declared, found]
      rfl
    rw [calling]
    refine .of_leads (site.leads_reserve reserved placed.second.first depicts)
      fun after shown => ?_
    refine .of_leads (site.leads_storeInputs stored (inputTypes.trans inputs)
      placed.second.second.first shown) fun after shown => ?_
    have returns := placed.second.second.second.second.first.single
    have concludes : Concludes compilation true _ := fun _ _ _ _ _ _ shown =>
      .here ⟨_, _, returns, shown⟩
    have agrees : site.Correct fuel definition.body := correct calls definition.body
    exact Agrees.body (agrees.agrees compiles typed result placed.second.second.second.first
      concludes shown)

theorem callsAgree (compilation : Compilation) (fuel : Nat) : CallsAgree compilation fuel := by
  induction fuel with
  | zero => exact ⟨fun _ _ _ _ => Or.inl ⟨_, rfl⟩⟩
  | succ fuel ih => exact ih.step

end

section

variable {compilation : Compilation} {position fuel number : Nat} {window : List (Option Typed)}
variable {effects : Effects} {session : Session} {statement : Statement}

/-! ## Statements -/

def Level.entry : Level where
  outer := []
  calls := #[]

/-- An executor with nothing left on its stack ends. -/
theorem finish_of_empty (promise : session.executor.promise = none)
    (empty : session.executor.eval.items = #[]) :
    Exec.finish session = .ok ()
      { session with executor := { session.executor with state := .success } } := by
  have known : (get : Exec Session) session = .ok session session := rfl
  have alone : session.executor.promise.isSome = false := by rw [promise, Option.isSome_none]
  have left : session.executor.eval.size = 0 := by rw [EvalStack.size, empty, Array.size_empty]
  unfold Exec.finish
  rw [exec_bind known]
  simp only [alone, Bool.false_eq_true, if_false]
  rw [exec_bind known]
  simp only [left, ne_eq, not_true, if_false]
  rfl

theorem Depicts.finish
    (depicts : Depicts compilation position (Level.entry.config window [] effects) session)
    (here : (Instruction.plain .ret).At compilation.image position) :
    Advances session (Ended compilation .success effects) := by
  refine depicts.advances here (fun lazies fetched shows => ?_) fun _ ended => ended.wait
  have frames : fetched.executor.calls.frames = #[] := shows.calls
  have empty : fetched.executor.eval.items = #[] := by
    have operands : RepresentsAll compilation lazies fetched.shared.heap []
      fetched.executor.eval.items.toList.reverse := shows.operands
    rw [← Array.toList_eq_nil_iff, ← List.reverse_eq_nil_iff]
    exact List.forall₂_nil_left_iff.1 operands
  let left : Session :=
    { fetched with
      executor :=
        { fetched.executor with
          consts := fetched.executor.consts.release
          calls := ⟨fetched.executor.calls.limit, fetched.executor.calls.frames.pop⟩ } }
  have returned : Exec.ret fetched = Exec.finish left := by
    unfold Exec.ret
    simp only [bind, EStateM.bind, frames, Array.back?_empty]
    rw [← frames]
  have finished : Exec.finish left = _ := finish_of_empty shows.promise empty
  exact ⟨_, returned.trans finished, Or.inl ⟨shows.surface, rfl, shows.wait, shows.promise⟩⟩

def Compilation.statementSite (compilation : Compilation) (number : Nat) (statement : Statement)
    (fits : statementFits compilation.program compilation.usable statement = true) :
    Site compilation where
  slots := statement.slots
  func := none
  labels := statementLabel number
  numbered := by
    unfold statementFits at fits
    exact (Bool.and_eq_true_iff.1 fits).1
  inputs := nofun

theorem agrees_statement {position : Nat}
    (stands : Lowering.Stands compilation.program compilation.image (.statement number statement)
      position) (fits : statementFits compilation.program compilation.usable statement = true)
    (depicts : Depicts compilation position (Level.entry.config [] [] effects) session) :
    Agrees compilation id (fuel + 1) (run compilation.program fuel statement effects)
      (fun _ effects => Ended compilation .success effects) session := by
  obtain ⟨code, unitCode, laid, inside⟩ := stands
  cases unitCode with
  | statement _ _ room body reserved lowered =>
    obtain ⟨_, _, compiles⟩ := lowered.compiles
    let site := compilation.statementSite number statement fits
    unfold statementFits at fits
    obtain ⟨_, typed⟩ := Bool.and_eq_true_iff.1 fits
    obtain ⟨type, known⟩ := exists_type? statement.expr typed
    have placed : Placed compilation.image position _ := ⟨laid, inside⟩
    simp only [List.append_assoc] at placed
    have placed := placed.second.second
    refine .of_leads (site.leads_reserve reserved placed.first depicts) fun after shown => ?_
    have agrees : site.Correct fuel statement.expr :=
      correct (callsAgree compilation fuel) statement.expr
    refine Agrees.body ((agrees.operand compiles typed known placed.second.first shown).trans ?_)
    intro value state after shown
    refine (shown.pop placed.second.second.first.single).leads.trans fun after shown => ?_
    exact (shown.finish placed.second.second.second.first.single).leads

/-! ## Outcomes -/

/-- How an evaluation of a statement ends the program: with success once there is a value. -/
inductive Ends : EStateM.Result Stop Effects Value → ExecState → Effects → Prop
  | success (value : Value) (effects : Effects) : Ends (.ok value effects) .success effects
  | ended (state : ExecState) (effects : Effects) :
      Ends (.error (.ended state) effects) state effects

theorem Agrees.leads_ended {outcome : EStateM.Result Stop Effects Value} {state : ExecState}
    (agrees : Agrees compilation id fuel outcome
      (fun _ effects => Ended compilation .success effects) session)
    (ends : Ends outcome state effects) : session.Leads (Ended compilation state effects) := by
  cases ends <;> exact agrees

theorem Ends.isTerminal {start : Effects} {program : Program} {state : ExecState}
    (ends : Ends (run program fuel statement start) state effects) : state.isTerminal = true := by
  generalize same : run program fuel statement start = outcome at ends
  cases ends with
  | success => rfl
  | ended => exact (fails_run program fuel statement start _ _ same).isTerminal

/-- An evaluation that neither ends nor reads a constant without a value has run out of fuel. -/
theorem Agrees.lasts {outcome : EStateM.Result Stop Effects Value}
    (agrees : Agrees compilation id fuel outcome
      (fun _ effects => Ended compilation .success effects) session)
    (set : ∀ slot effects, outcome ≠ .error (.unset slot) effects)
    (unended : ∀ state effects, ¬Ends outcome state effects)
    (bounded : ¬session.Leads fun _ => False) : session.Lasts fuel := by
  match outcome, agrees with
  | .ok value effects, _ => exact absurd (.success value effects) (unended _ _)
  | .error (.ended state) effects, _ => exact absurd (.ended state effects) (unended _ _)
  | .error (.unset slot) effects, _ => exact absurd rfl (set slot effects)
  | .error .illTyped _, agrees => exact absurd agrees bounded
  | .error .outOfFuel _, agrees => exact agrees

end

end Evaluation

/-! ## Machines -/

open Evaluation

theorem Shared.written_of_surface {shared : Shared} {output errors : Bytes}
    (written : shared.surface.written = some (output, errors)) :
    shared.platform.output = output ∧ shared.platform.errors = errors := by
  unfold surface at written
  dsimp only at written
  split at written
  · cases written
  · cases written
    exact ⟨rfl, rfl⟩

namespace Machine

/-- Whether a machine is about to run an assembly: nothing else runs on it, and what is logged does
not go where the program writes. -/
structure Ready (assembly : Assembly) (machine : Machine) : Prop where
  alone : machine.executors = #[]
  assembly : machine.shared.assembly = assembly
  aborting : machine.shared.aborting = false
  spawned : machine.shared.spawned = []
  apart : machine.shared.journal ≠ .console
  sound : machine.shared.heap.Sound
  room : machine.shared.heap.slots.size + 1 < 2 ^ 32

theorem ready_new (assembly : Assembly) (settings : Settings) (platform : Platform)
    {journal : Journal} (apart : journal ≠ .console) :
    Ready assembly (.new assembly settings platform journal) where
  alone := rfl
  assembly := rfl
  aborting := rfl
  spawned := rfl
  apart := apart
  sound := Heap.Sound.new _ _
  room := show 0 + 1 < 2 ^ 32 by decide

/-- What has been written so far, with no lazy calls recorded. -/
def written (machine : Machine) : Effects where
  output := machine.shared.platform.output
  errors := machine.shared.platform.errors

/-- Whether a run from an entry point reaches a bound of the machine: a full stack, a full heap or
no slot numbers left. -/
def Exhausts (machine : Machine) (ip : UInt32) : Prop :=
  ∃ count after, Session.Path count (machine.entered ip) after ∧ after.RunsOut

section

variable {machine : Machine} {compilation : Compilation}

theorem Ready.depicts (ready : machine.Ready compilation.image.assembly) (ip : UInt32) :
    Depicts compilation ip.toNat (Level.entry.config [] [] machine.written)
      (machine.entered ip) := by
  have surface : machine.shared.surface = compilation.surface machine.written := by
    unfold Shared.surface Compilation.surface
    rw [ready.assembly, ready.aborting, ready.spawned]
    have apart := ready.apart
    cases same : machine.shared.journal with
    | console => exact absurd same apart
    | off => rfl
    | kept text => rfl
  exact ⟨fun _ => none, {
    surface := (surface_entered machine ip).trans surface
    running := rfl
    wait := rfl
    promise := rfl
    sound := ready.sound
    room := ready.room
    ip := rfl
    base := rfl
    calls := rfl
    operands := .nil
    constants := .nil
    cells := ⟨nofun, nofun⟩ }⟩

theorem Ready.runEntry_ended {ip : UInt32} {state : ExecState} {effects : Effects}
    (ready : machine.Ready compilation.image.assembly) (terminal : state.isTerminal = true)
    (bounded : ¬machine.Exhausts ip)
    (leads : (machine.entered ip).Leads (Ended compilation state effects)) :
    ∃ enough, ∀ turns ≥ enough, ∀ index,
      (machine.runEntry turns index ip).1 = state ∧
        (machine.runEntry turns index ip).2.shared.platform.output = effects.output ∧
        (machine.runEntry turns index ip).2.shared.platform.errors = effects.errors := by
  obtain ⟨count, after, path, ended | out⟩ := leads
  · refine ⟨2 * count + 1, fun turns enough index => ?_⟩
    obtain ⟨same, surface⟩ := runEntry_ends ready.alone path (ended.state ▸ terminal) ended.promise
      (congrArg Surface.spawned ended.surface) enough index
    refine ⟨same.trans ended.state, Shared.written_of_surface ?_⟩
    rw [surface, ended.surface]
    rfl
  · exact absurd ⟨count, after, path, out⟩ bounded

/-- A run that goes on for ever is not over after any number of turns. -/
theorem Ready.runEntry_running {ip : UInt32} {assembly : Assembly} (ready : machine.Ready assembly)
    (bounded : ¬machine.Exhausts ip) (lasts : ∀ count, (machine.entered ip).Lasts count)
    (turns index : Nat) : (machine.runEntry turns index ip).1 = .running := by
  obtain ⟨after, path⟩ | ⟨steps, after, path, out⟩ := lasts (4097 * turns)
  · exact runEntry_lasts ready.alone path (Nat.le_refl _) index
  · exact absurd ⟨steps, after, path, out⟩ bounded

end

/-- The code of a statement that fits its tables has an entry point, and a run from it does what the
evaluation of the statement does, if no constant is read that has no value and the machine does not
reach a bound: it ends in the same state with the same output and error output written, and does not
end if the evaluation does not. -/
theorem runEntry_agrees {program : Program} {usable : FuncId → Bool} {assembly : Assembly}
    {number : Nat} {statement : Statement} {machine : Machine}
    (generated : generate program = .ok assembly) (small : assembly.code.size < 2 ^ 32)
    (fits : programFits program usable = true)
    (found : program.statements[number]? = some statement)
    (typed : statementFits program usable statement = true) (ready : machine.Ready assembly)
    (set : ∀ fuel slot effects,
      Evaluation.run program fuel statement machine.written ≠ .error (.unset slot) effects) :
    ∃ ip, assembly.entries[number]? = some ip ∧ (¬machine.Exhausts ip →
      (∀ fuel state effects,
        Ends (Evaluation.run program fuel statement machine.written) state effects →
          ∃ enough, ∀ turns ≥ enough, ∀ index,
            (machine.runEntry turns index ip).1 = state ∧
              (machine.runEntry turns index ip).2.shared.platform.output = effects.output ∧
              (machine.runEntry turns index ip).2.shared.platform.errors = effects.errors) ∧
      ((∀ fuel state effects,
        ¬Ends (Evaluation.run program fuel statement machine.written) state effects) →
          ∀ turns index, (machine.runEntry turns index ip).1 = .running)) := by
  obtain ⟨whole, joined, closed⟩ := generate_eq_ok.1 generated
  obtain ⟨image, rfl, _, layout, _⟩ := layout_of_joined joined closed small
  let compilation : Compilation := { program, usable, image, layout, fits }
  obtain ⟨position, stands, entry⟩ := layout.statement number statement found
  have near : position < 2 ^ 32 := by
    obtain ⟨_, _, _, inside⟩ := stands
    omega
  refine ⟨UInt32.ofNat position, entry, fun bounded => ?_⟩
  have depicts : Depicts compilation position (Level.entry.config [] [] machine.written)
      (machine.entered (UInt32.ofNat position)) := by
    have shown : Depicts compilation _ _ _ := ready.depicts (UInt32.ofNat position)
    rwa [UInt32.toNat_ofNat_of_lt' near] at shown
  have agrees : ∀ fuel, Agrees compilation id (fuel + 1)
      (Evaluation.run program fuel statement machine.written)
      (fun _ effects => Ended compilation .success effects)
      (machine.entered (UInt32.ofNat position)) :=
    fun fuel => agrees_statement stands typed depicts
  constructor
  · intro fuel state effects ends
    exact ready.runEntry_ended ends.isTerminal bounded ((agrees fuel).leads_ended ends)
  · intro unended
    refine ready.runEntry_running bounded fun count => ?_
    refine ((agrees count).lasts (set count) (unended count) ?_).mono (Nat.le_succ count)
    rintro ⟨steps, after, path, none | out⟩
    · exact none
    · exact bounded ⟨steps, after, path, out⟩

/-! ## A division -/

/-- Writes a letter and asks for one divided by zero. -/
def divisionRequest : Statement :=
  ⟨[], .group [.call 2 [.char 65] 0 4, .call 0 [.int 1, .int 0] 0 0]⟩

/-- The statement with a function that divides. -/
def division : Program :=
  { Program.empty with
    funcs := #[{ id := 0, kind := 1, input := some [0, 0] }, { id := 1, kind := 5 },
      { id := 2, kind := 95 }]
    defs := [{ id := 0, slots := [{ id := 0, kind := 1 }, { id := 1, kind := 1 }]
               body := .call 1 [.slot 0 0, .slot 1 0] 0 0 }]
    statements := #[divisionRequest] }

def divisionFunction : Bytes :=
  ⟨#[Opcode.reserveConsts.code, 2, Opcode.storeConst.code, 1, Opcode.storeConst.code, 0,
    Opcode.loadConst.code, 0, Opcode.loadConst.code, 1, Opcode.divInt.code, Opcode.ret.code,
    Opcode.fail.code]⟩

def divisionStatement : Bytes :=
  ⟨#[Opcode.loadInt.code, 65, 0, 0, 0, Opcode.platformCall.code, 1, Opcode.pop.code,
    Opcode.loadInt.code, 1, 0, 0, 0, Opcode.loadInt.code, 0, 0, 0, 0,
    Opcode.call.code, 0, 0, 0, 0, 2, CallMode.normal.code,
    Opcode.pop.code, Opcode.ret.code, Opcode.fail.code]⟩

theorem joined_division : joined division = .ok {
    code := divisionFunction ++ divisionStatement
    labels := ((∅ : Std.HashMap Label Nat).insert (funcLabel 0) 0).insert (statementLabel 0) 13
    labelUses := #[(32, funcLabel 0)]
    entries := #[statementLabel 0] } := by
  have function : (CodeUnit.function 0).fragment division = .ok {
      scope := funcLabel 0, code := divisionFunction
      labels := (∅ : Std.HashMap Label Nat).insert (funcLabel 0) 0 } := by
    have bound : (Fragment.empty (funcLabel 0)).apply (.bind (funcLabel 0)) = _ :=
      Fragment.bindAt_of_not_mem (by simp [Fragment.empty]) 0
    have code : (CodeUnit.function 0).fragment division =
        .ok (List.foldl Fragment.apply (Fragment.empty (funcLabel 0))
          [.bind (funcLabel 0), .emit (.reserveConsts 2), .emit (.storeConst 1),
            .emit (.storeConst 0), .emit (.loadConst 0), .emit (.loadConst 1),
            .emit (.plain .divInt), .emit (.plain .ret), .emit (.plain .fail)]) := rfl
    rw [code, List.foldl_cons, bound]
    rfl
  have statement : (CodeUnit.statement 0 divisionRequest).fragment division = .ok {
      scope := statementLabel 0, code := divisionStatement
      labels := (∅ : Std.HashMap Label Nat).insert (statementLabel 0) 0
      labelUses := #[(19, funcLabel 0)]
      entries := #[statementLabel 0] } := by
    have bound : (Fragment.empty (statementLabel 0)).apply (.bind (statementLabel 0)) = _ :=
      Fragment.bindAt_of_not_mem (by simp [Fragment.empty]) 0
    have code : (CodeUnit.statement 0 divisionRequest).fragment division =
        .ok (List.foldl Fragment.apply (Fragment.empty (statementLabel 0))
          [.bind (statementLabel 0), .entry (statementLabel 0), .emit (.loadInt 65),
            .emit (.platformCall 1), .emit (.plain .pop), .emit (.loadInt 1), .emit (.loadInt 0),
            .emit (.call (funcLabel 0) 2 CallMode.normal.code), .emit (.plain .pop),
            .emit (.plain .ret), .emit (.plain .fail)]) := rfl
    rw [code, List.foldl_cons, bound]
    rfl
  have listed : units division = .ok [.function 0, .statement 0 divisionRequest] := by
    have none : equalityTypes division = .ok [] := by decide +kernel
    unfold units
    rw [none]
    rfl
  unfold joined
  rw [listed]
  simp only [fragments, function, statement]
  change Except.ok (Fragment.append (Fragment.append _ _) _) = _
  have first : (Fragment.empty ByteArray.empty).append {
      scope := funcLabel 0, code := divisionFunction
      labels := (∅ : Std.HashMap Label Nat).insert (funcLabel 0) 0 } = _ :=
    Fragment.append_single rfl rfl rfl (by simp [Fragment.empty])
  rw [first, Fragment.append_single rfl rfl rfl (by
    have apart : funcLabel 0 ≠ statementLabel 0 := by decide
    simp [Fragment.empty, apart])]
  have size : divisionFunction.size = 13 := rfl
  simp [Fragment.empty, size]

def divisionAssembly : Assembly where
  code := divisionFunction ++ divisionStatement
  literals := #[]
  entries := #[13]

theorem generate_division : generate division = .ok divisionAssembly := by
  have apart : statementLabel 0 ≠ funcLabel 0 := by decide
  have written : Bytes.setU32 (divisionFunction ++ divisionStatement) 32 0 =
      divisionFunction ++ divisionStatement := by decide
  refine generate_eq_ok.2 ⟨_, joined_division, ?_⟩
  simp [Fragment.close, Fragment.resolveUse, Fragment.resolveEntry, Std.HashMap.getElem_insert,
    apart, written]
  rfl

/-- A machine with just enough room for the program. -/
def divisionMachine : Machine :=
  .new divisionAssembly { evalStack := 2, constStack := 2, callStack := 1 } default .off

theorem run_division (fuel : Nat) :
    Evaluation.run division (fuel + 1) divisionRequest divisionMachine.written =
      .error (.ended .divByZero) { output := "A".toUTF8 } := rfl

/-- The run writes the letter and ends in a division by zero. -/
theorem runEntry_agrees_division :
    ∃ enough, ∀ turns ≥ enough, ∀ index,
      (divisionMachine.runEntry turns index 13).1 = .divByZero ∧
        (divisionMachine.runEntry turns index 13).2.shared.platform.output = "A".toUTF8 := by
  have fits : programFits division (fun _ => true) = true := by decide +kernel
  have typed : statementFits division (fun _ => true) divisionRequest = true := by decide +kernel
  have ready : divisionMachine.Ready divisionAssembly := ready_new _ _ _ nofun
  have set : ∀ fuel slot effects,
      Evaluation.run division fuel divisionRequest divisionMachine.written ≠
        .error (.unset slot) effects := by
    intro fuel slot effects
    cases fuel with
    | zero => nofun
    | succ fuel =>
      rw [run_division]
      nofun
  obtain ⟨ip, entry, agrees⟩ := runEntry_agrees generate_division (by decide) fits
    (show division.statements[0]? = some divisionRequest from rfl) typed ready set
  have same : (13 : UInt32) = ip := Option.some.inj entry
  subst same
  have bounded : ¬divisionMachine.Exhausts 13 := by
    rintro ⟨count, after, path, out⟩
    obtain ⟨rfl, running⟩ := path.eq_iterate
    have ends : (Session.next^[12] (divisionMachine.entered 13)).executor.state ≠ .running := by
      decide
    have short : count ≤ 12 := by
      by_contra long
      exact ends (running 12 (Nat.lt_of_not_le long))
    have lasts : ∀ count ≤ 12, ¬(Session.next^[count] (divisionMachine.entered 13)).RunsOut := by
      unfold Session.RunsOut
      decide
    exact lasts count short out
  have ends : Ends (Evaluation.run division 1 divisionRequest divisionMachine.written) .divByZero
      { output := "A".toUTF8 } := by
    rw [run_division 0]
    exact .ended _ _
  obtain ⟨enough, done⟩ := (agrees bounded).1 1 _ _ ends
  exact ⟨enough, fun turns many index => ⟨(done turns many index).1, (done turns many index).2.1⟩⟩

end Machine

end WordMachine
