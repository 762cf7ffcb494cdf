import WordMachine.Proofs.CallMoves

/-!
Where the code of an expression stands: in a function or statement with its constants, whose values
fill the window of its level, and in front of what is done with the value of the expression.
-/

namespace WordMachine.Evaluation

open Lowering (Code Compiles slotByte)

/-! ## Sites -/

/-- The function or statement that some code belongs to. An enclosing function is declared as it is
and takes its inputs in the order of their types. -/
structure Site (compilation : Compilation) where
  slots : SlotTable
  func : Option FuncDecl
  labels : Bytes
  numbered : isNumbered slots = true
  inputs : ∀ decl, func = some decl →
    compilation.program.func? decl.id = some decl ∧
      SlotTable.inputs slots = SlotTable.freeInputs slots ++ SlotTable.boundInputs slots ∧
      (Scope.mk compilation.program slots func).slotTypes (SlotTable.inputs slots) =
        decl.input.getD []

namespace Site

variable {compilation : Compilation} (site : Site compilation)

def context : Lowering.Context where
  program := compilation.program
  scope := site.labels
  slots := site.slots
  func := site.func

def scope : Scope where
  program := compilation.program
  slots := site.slots
  func := site.func

def window (locals : SlotId → Option Value) : List (Option Typed) :=
  site.slots.map fun decl => (locals decl.id).map (decl.type, ·)

end Site

/-! ## Constants -/

theorem isNumbered_getElem? {slots : SlotTable} (numbered : isNumbered slots = true)
    {position : Nat} {decl : SlotDecl} (known : slots[position]? = some decl) :
    decl.id.toNat = position := by
  unfold isNumbered at numbered
  exact beq_iff_eq.1 (List.all_eq_true.1 numbered (decl, position)
    (List.mk_mem_zipIdx_iff_getElem?.2 known))

theorem toNat_of_slotByte {slot : SlotId} {byte : UInt8} (fits : slotByte slot = .ok byte) :
    byte.toNat = slot.toNat := by
  unfold slotByte at fits
  split at fits
  · next small =>
    cases fits
    exact UInt8.toNat_ofNat_of_lt' small
  · cases fits

section

variable {compilation : Compilation} {site : Site compilation} {slot : SlotId} {type : TypeId}

theorem Site.exists_decl (typed : site.scope.slotType? slot = some type) :
    ∃ decl, site.slots[slot.toNat]? = some decl ∧ decl.id = slot ∧ decl.type = type := by
  obtain ⟨decl, known, same⟩ := Option.map_eq_some_iff.1 typed
  exact ⟨decl, known, UInt32.toNat_inj.1 (isNumbered_getElem? site.numbered known), same⟩

theorem Site.length_window (locals : SlotId → Option Value) :
    (site.window locals).length = site.slots.length :=
  List.length_map _

theorem Site.lt_length_window (typed : site.scope.slotType? slot = some type)
    (locals : SlotId → Option Value) : slot.toNat < (site.window locals).length := by
  obtain ⟨decl, known, _⟩ := site.exists_decl typed
  rw [length_window]
  exact (List.getElem?_eq_some_iff.1 known).1

theorem Site.window_getElem? {locals : SlotId → Option Value} {value : Value}
    (typed : site.scope.slotType? slot = some type) (known : locals slot = some value) :
    (site.window locals)[slot.toNat]? = some (some (type, value)) := by
  obtain ⟨decl, found, rfl, rfl⟩ := site.exists_decl typed
  rw [window, List.getElem?_map, found, Option.map_some, known]
  rfl

def setting (locals : SlotId → Option Value) (slot : SlotId) (value : Option Value) :
    SlotId → Option Value :=
  fun other => if other = slot then value else locals other

theorem Site.window_set (typed : site.scope.slotType? slot = some type)
    (locals : SlotId → Option Value) (value : Option Value) :
    (site.window locals).set slot.toNat (value.map (type, ·)) =
      site.window (setting locals slot value) := by
  obtain ⟨decl, found, rfl, rfl⟩ := site.exists_decl typed
  refine List.ext_getElem? fun position => ?_
  rw [List.getElem?_set, length_window]
  split
  · next same =>
    subst same
    rw [if_pos (List.getElem?_eq_some_iff.1 found).1, window, List.getElem?_map, found]
    simp [setting]
  · next different =>
    rw [window, window, List.getElem?_map, List.getElem?_map]
    cases other : site.slots[position]? with
    | none => rfl
    | some another =>
      have apart : another.id ≠ decl.id := by
        intro same
        rw [← isNumbered_getElem? site.numbered other, same] at different
        exact different rfl
      simp [setting, apart]

/-- A constant gets the value that the word on top of the stack stands for, if any. -/
theorem Site.storeSlot {position : Nat} {level : Level} {item : Typed} {rest : List Typed}
    {effects : Effects} {session : Session} {byte : UInt8} {locals : SlotId → Option Value}
    (value : Option Value) (fits : slotByte slot = .ok byte)
    (typed : site.scope.slotType? slot = some type)
    (covers : ∀ other, value.map (type, ·) = some other → Covers compilation item other)
    (here : (Instruction.storeConst byte).At compilation.image position)
    (depicts : Depicts compilation position
      (level.config (site.window locals) (item :: rest) effects) session) :
    Advances session (Depicts compilation (position + 2)
      (level.config (site.window (setting locals slot value)) rest effects)) := by
  have reserved := site.lt_length_window typed locals
  rw [← toNat_of_slotByte fits] at reserved
  have stored := depicts.storeConst (value.map (type, ·)) here reserved covers
  rw [toNat_of_slotByte fits, site.window_set typed] at stored
  exact stored

end

/-! ## What follows -/

section

variable {compilation : Compilation} {site : Site compilation} {position : Nat} {tail : Bool}
variable {session : Session} {level : Level} {window : List (Option Typed)}
variable {operands : List Typed} {effects : Effects}
variable {fuel first last : Nat} {state : State} {code : Code} {type : TypeId}

/-- Whether the code at a position returns from the function, if it is the end of code in tail
position. -/
def Concludes (compilation : Compilation) (tail : Bool) (position : Nat) : Prop :=
  tail = true → ∀ {level : Level} {window : List (Option Typed)} {operands : List Typed}
    {effects : Effects} {session : Session},
    Depicts compilation position (level.config window operands effects) session →
      session.Leads (Returning compilation level operands effects)

theorem concludes_false : Concludes compilation false position :=
  fun no => nomatch no

theorem Concludes.delivered (concludes : Concludes compilation tail position)
    (depicts : Depicts compilation position (level.config window operands effects) session) :
    session.Leads (Delivered compilation tail position level window operands effects) := by
  cases tail with
  | false => exact .here depicts
  | true => exact concludes rfl depicts

theorem Agrees.trans {state value : Type} {view : state → Effects}
    {outcome : EStateM.Result Stop state value} {between goal : value → state → Session → Prop}
    (agrees : Agrees compilation view fuel outcome between session)
    (rest : ∀ value state after, between value state after → after.Leads (goal value state)) :
    Agrees compilation view fuel outcome goal session := by
  match outcome, agrees with
  | .ok value state, agrees => exact Session.Leads.trans agrees (rest value state)
  | .error (.ended _) _, agrees => exact agrees
  | .error (.unset _) _, _ => exact trivial
  | .error .illTyped _, agrees => exact agrees
  | .error .outOfFuel _, agrees => exact agrees

/-! ## Agreement of code with evaluation -/

/-- Whether the code of an expression does what its evaluation does, wherever it stands. -/
structure Site.Correct (site : Site compilation) (fuel : Nat) (expr : Expr) : Prop where
  agrees : ∀ {tail : Bool} {first last : Nat} {code : Code} {type : TypeId} {position : Nat}
    {level : Level} {operands : List Typed} {state : State} {session : Session},
    Compiles site.context (.one expr tail) first code last →
    isTyped site.scope compilation.usable expr = true → expr.type? = some type →
    Placed compilation.image position code →
    Concludes compilation tail (position + Code.size code) →
    Depicts compilation position
      (level.config (site.window state.locals) operands state.effects) session →
    Agrees compilation State.effects (fuel + 1)
      (evaluate site.scope (invoke compilation.program fuel) expr state)
      (fun value state => Delivered compilation tail (position + Code.size code) level
        (site.window state.locals) ((type, value) :: operands) state.effects) session

theorem Site.Correct.operand {expr : Expr} (correct : site.Correct fuel expr)
    (compiles : Compiles site.context (.one expr false) first code last)
    (typed : isTyped site.scope compilation.usable expr = true) (known : expr.type? = some type)
    (placed : Placed compilation.image position code) (depicts : Depicts compilation position
      (level.config (site.window state.locals) operands state.effects) session) :
    Agrees compilation State.effects (fuel + 1)
      (evaluate site.scope (invoke compilation.program fuel) expr state)
      (fun value state => Depicts compilation (position + Code.size code)
        (level.config (site.window state.locals) ((type, value) :: operands) state.effects))
      session :=
  correct.agrees compiles typed known placed concludes_false depicts

/-- Code whose evaluation ends in a value goes on to what follows. -/
theorem Agrees.delivered {outcome : EStateM.Result Stop State Value}
    (agrees : Agrees compilation State.effects fuel outcome (fun value state =>
      Depicts compilation position
        (level.config (site.window state.locals) ((type, value) :: operands) state.effects))
        session)
    (concludes : Concludes compilation tail position) :
    Agrees compilation State.effects fuel outcome (fun value state =>
      Delivered compilation tail position level (site.window state.locals)
        ((type, value) :: operands) state.effects) session :=
  agrees.trans fun _ _ _ depicts => concludes.delivered depicts

/-! ## Lists -/

/-- Operands whose code leaves their values on the stack in order. -/
theorem Site.agrees_all {items : List Expr} (each : ∀ item ∈ items, site.Correct fuel item)
    (compiles : Compiles site.context (.all items) first code last)
    (typed : areTyped site.scope compilation.usable items = true)
    (placed : Placed compilation.image position code) (depicts : Depicts compilation position
      (level.config (site.window state.locals) operands state.effects) session) :
    Agrees compilation State.effects (fuel + 1)
      (evaluateAll site.scope (invoke compilation.program fuel) items state)
      (fun values state after => ∃ given : List Typed,
        given.map Prod.fst = typesOf items ∧ given.map Prod.snd = values ∧
          Depicts compilation (position + Code.size code)
            (level.config (site.window state.locals) (given.reverse ++ operands) state.effects)
            after) session := by
  induction items generalizing code first position operands state session with
  | nil =>
    cases compiles
    rw [evaluateAll]
    exact .here ⟨[], rfl, rfl, depicts⟩
  | cons item items ih =>
    cases compiles with
    | cons itemCompiles others =>
      simp only [areTyped, Bool.and_eq_true] at typed
      obtain ⟨type, known⟩ := exists_type? item typed.1
      rw [evaluateAll]
      refine ((each item List.mem_cons_self).operand itemCompiles typed.1 known placed.first
        depicts).bind fun value middle after shown => ?_
      refine (ih (fun other member => each other (List.mem_cons_of_mem _ member))
        others typed.2 placed.second shown).bind fun values final after delivered => ?_
      obtain ⟨given, types, values, shown⟩ := delivered
      refine .here ⟨(type, value) :: given, ?_, ?_, ?_⟩
      · rw [typesOf_cons known, List.map_cons, types]
      · rw [List.map_cons, values]
      · rw [Code.size_append, ← Nat.add_assoc, List.reverse_cons, List.append_assoc,
          List.singleton_append]
        exact shown

theorem Site.agrees_slot {slot : SlotId} {byte : UInt8} (fits : slotByte slot = .ok byte)
    (typed : site.scope.slotType? slot = some type)
    (here : (Instruction.loadConst byte).At compilation.image position)
    (depicts : Depicts compilation position
      (level.config (site.window state.locals) operands state.effects) session) :
    Agrees compilation State.effects fuel (getLocal slot state)
      (fun value state => Depicts compilation (position + 2)
        (level.config (site.window state.locals) ((type, value) :: operands) state.effects))
      session := by
  cases content : state.locals slot with
  | none =>
    have unset : getLocal slot state = .error (.unset slot) state := by
      simp only [getLocal, bind, EStateM.bind, get, getThe, MonadStateOf.get, EStateM.get, content]
      rfl
    rw [unset]
    exact trivial
  | some value =>
    have found : getLocal slot state = .ok value state := by
      simp only [getLocal, bind, EStateM.bind, get, getThe, MonadStateOf.get, EStateM.get, content]
      rfl
    rw [found]
    have inWindow := site.window_getElem? typed content
    rw [← toNat_of_slotByte fits] at inWindow
    exact (depicts.loadConst here inWindow).leads

theorem Site.agrees_loadSlots {slots : List SlotId}
    (loaded : Lowering.loadSlots slots first = .ok (code, last))
    (typed : ∀ slot ∈ slots, ∃ type, site.scope.slotType? slot = some type)
    (placed : Placed compilation.image position code) (depicts : Depicts compilation position
      (level.config (site.window state.locals) operands state.effects) session) :
    Agrees compilation State.effects fuel (getLocals slots state)
      (fun values state after => ∃ given : List Typed,
        given.map Prod.fst = site.scope.slotTypes slots ∧ given.map Prod.snd = values ∧
          Depicts compilation (position + Code.size code)
            (level.config (site.window state.locals) (given.reverse ++ operands) state.effects)
            after) session := by
  induction slots generalizing code position first operands state session with
  | nil =>
    obtain ⟨_, rfl⟩ := Lowering.loadSlots_nil loaded
    exact .here ⟨[], rfl, rfl, depicts⟩
  | cons slot slots ih =>
    obtain ⟨byte, rest, fits, restLoaded, rfl⟩ := Lowering.loadSlots_cons loaded
    obtain ⟨type, known⟩ := typed slot List.mem_cons_self
    rw [getLocals]
    refine (site.agrees_slot fits known placed.first.single depicts).bind
      fun value middle after shown => ?_
    refine (ih restLoaded
      (fun other member => typed other (List.mem_cons_of_mem _ member)) placed.second
      shown).bind fun values final after delivered => ?_
    obtain ⟨given, types, values, shown⟩ := delivered
    refine .here ⟨(type, value) :: given, ?_, ?_, ?_⟩
    · rw [Scope.slotTypes, List.filterMap_cons, known, List.map_cons, types]
      rfl
    · rw [List.map_cons, values]
    · rw [Code.size_append, ← Nat.add_assoc, List.reverse_cons, List.append_assoc,
        List.singleton_append]
      exact shown

end

end WordMachine.Evaluation
