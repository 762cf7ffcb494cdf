import WordMachine.Proofs.ConfigurationMoves

/-!
The code of built-in functions. Every operator is computed by a short sequence of instructions on
the operands; constructors and actions on the platform follow their arguments as single
instructions. Once the arguments are on the stack, the code does what the function does and leaves
its result.
-/

namespace WordMachine.Evaluation

open Lowering (Code emit plain)

variable {op : Opcode}

/-! ## Single instructions -/

/-- Whether an instruction computes an operator. -/
def Computes (op : Opcode) (operation : Operation) : Prop :=
  ∀ assembly position, Exec.perform assembly op position = operate operation

theorem pushBool_eq (value : Bool) : Exec.pushBool value = Exec.pushInt (flag value) := by
  cases value <;> rfl

theorem byteOf_toInt (word : Word) : Exec.byteOf word.toInt = word.toByte := rfl

theorem computes_intTest {test : Int32 → Int32 → Bool}
    (performs : ∀ assembly position, Exec.perform assembly op position = Exec.intTest test) :
    Computes op (intTest test) := by
  intro assembly position
  rw [performs]
  unfold Exec.intTest
  simp only [pushBool_eq]
  rfl

theorem computes_longTest {test : Int64 → Int64 → Bool}
    (performs : ∀ assembly position, Exec.perform assembly op position = Exec.longTest test) :
    Computes op (longTest test) := by
  intro assembly position
  rw [performs]
  unfold Exec.longTest
  simp only [pushBool_eq]
  rfl

theorem computes_floatTest {test : Number.Single → Number.Single → Bool}
    (performs : ∀ assembly position, Exec.perform assembly op position = Exec.floatTest test) :
    Computes op (floatTest test) := by
  intro assembly position
  rw [performs]
  unfold Exec.floatTest
  simp only [pushBool_eq]
  rfl

theorem computes_eqString : Computes .eqString (stringTest fun left right => left == right) := by
  intro assembly position
  simp only [Exec.perform, pushBool_eq]
  rfl

theorem computes_notInt :
    Computes .notInt (.unary .int .int fun (value : Int32) => flag (value == 0)) := by
  intro assembly position
  simp only [Exec.perform, pushBool_eq]
  rfl

theorem pop_toByte {α : Type} (follow : UInt8 → Exec α) :
    (do follow (← Exec.pop).toByte : Exec α) = (do follow (Exec.byteOf (← Exec.popInt))) := by
  simp only [Exec.popInt, bind_assoc, pure_bind, byteOf_toInt]

theorem computes_combineChars :
    Computes .combineChars (.binary .int .int .string fun left right =>
      Bytes.ofList [Exec.byteOf left, Exec.byteOf right]) := by
  intro assembly position
  change (do
    let right := (← Exec.pop).toByte
    let left := (← Exec.pop).toByte
    Exec.pushString (Bytes.ofList [left, right]) : Exec Unit) = _
  rw [pop_toByte fun right => do
    let left := (← Exec.pop).toByte
    Exec.pushString (Bytes.ofList [left, right])]
  refine congrArg (Exec.popInt >>= ·) (funext fun right => ?_)
  exact pop_toByte fun left => Exec.pushString (Bytes.ofList [left, Exec.byteOf right])

theorem computes_charToString :
    Computes .charToString (.unary .int .string fun value =>
      Bytes.singleton (Exec.byteOf value)) :=
  fun _ _ => pop_toByte fun byte => Exec.pushString (Bytes.singleton byte)

theorem computes_intToChar :
    Computes .intToChar (.unary .int .int fun value => charOf (Exec.byteOf value)) :=
  fun _ _ => pop_toByte fun byte => Exec.pushInt (charOf byte)

section

variable {compilation : Compilation} {position : Nat} {session : Session} {level : Level}
variable {window : List (Option Typed)} {effects : Effects} {items operands rest : List Typed}
variable {result : TypeId}
variable {operation : Operation}

/-! ## Code -/

/-- Whether code computes an operator on the operands, wherever it stands. -/
structure Calculates (compilation : Compilation) (code : Code) (operation : Operation) : Prop where
  leads : ∀ {position : Nat} {level : Level} {window : List (Option Typed)} {effects : Effects}
    (items rest : List Typed) {result : TypeId} {session : Session},
    Placed compilation.image position code →
    haveScalars compilation.program (items.map Prod.fst) operation.inputs = true →
    hasScalar compilation.program result operation.output = true →
    Depicts compilation position (level.config window (items.reverse ++ rest) effects) session →
      session.Leads (Results compilation (position + Code.size code)
        (level.config window rest effects) result (operation.apply (items.map Prod.snd)))

theorem Results.wait {config : Config} {type : TypeId} {outcome : Except Stop Value}
    (results : Results compilation position config type outcome session) :
    session.executor.wait = none := by
  match outcome, results with
  | .ok _, ⟨_, shows⟩ => exact shows.wait
  | .error (.ended state), ended =>
    exact (show Ended compilation state config.effects session from ended).wait

theorem calculates_plain {op : Opcode} (computes : Computes op operation) :
    Calculates compilation (plain op) operation := by
  refine ⟨fun {position level window effects} items rest {result session} placed typed resultTyped
    depicts => ?_⟩
  have here : (Instruction.plain op).At compilation.image position := placed.single
  have size : op.size = 1 := here.operands
  refine (depicts.advances here (fun lazies fetched shows => ?_) fun _ => Results.wait).leads
  rw [show (Instruction.plain op).op = op from rfl, size] at shows
  rw [show (Instruction.plain op).op = op from rfl, computes]
  exact shows.operate rfl typed resultTyped

/-! ### Constants -/

/-- A constant is pushed whatever lies below. -/
theorem calculates_constant {instruction : Instruction} {output : Scalar} {value : output.Carrier}
    (loads : ∀ {position : Nat} {level : Level} {window : List (Option Typed)} {effects : Effects}
      {operands : List Typed} {type : TypeId} {session : Session},
      Depicts compilation position (level.config window operands effects) session →
      instruction.At compilation.image position →
      hasScalar compilation.program type output = true →
        Advances session (Depicts compilation (position + Code.size (emit instruction))
          (level.config window ((type, .ofScalar output value) :: operands) effects))) :
    Calculates compilation (emit instruction) (.constant output value) := by
  refine ⟨fun {position level window effects} items rest {result session} placed typed resultTyped
    depicts => ?_⟩
  have none : items = [] := by
    cases items with
    | nil => rfl
    | cons item items => cases typed
  subst none
  exact (loads depicts placed.single resultTyped).leads

theorem calculates_loadInt (value : Int32) :
    Calculates compilation (emit (.loadInt value)) (.constant .int value) :=
  calculates_constant fun depicts here typed => depicts.loadInt here typed

theorem calculates_loadLong (value : Int64) :
    Calculates compilation (emit (.loadLong value)) (.constant .long value) :=
  calculates_constant fun depicts here typed => depicts.loadLong here typed

theorem calculates_loadFloat (bits : Number.Single) :
    Calculates compilation (emit (.loadFloat bits)) (.constant .float bits) :=
  calculates_constant fun depicts here typed => depicts.loadFloat here typed

theorem calculates_loadString (text : Bytes) :
    Calculates compilation (emit (.loadString text)) (.constant .string text) :=
  calculates_constant fun depicts here typed => depicts.loadString here typed

/-! ### Sequences -/

theorem Operation.apply_unary {input output : Scalar} {apply : input.Carrier → output.Carrier}
    (value : input.Carrier) :
    (Operation.unary input output apply).apply [.ofScalar input value] =
      .ok (.ofScalar output (apply value)) := by
  simp only [Operation.apply, toScalar?_ofScalar]

theorem Operation.apply_binary {left right output : Scalar}
    {apply : left.Carrier → right.Carrier → output.Carrier} (first : left.Carrier)
    (second : right.Carrier) :
    (Operation.binary left right output apply).apply
        [.ofScalar left first, .ofScalar right second] =
      .ok (.ofScalar output (apply first second)) := by
  simp only [Operation.apply, toScalar?_ofScalar]

theorem Depicts.exists_scalar {item : Typed} {scalar : Scalar}
    (depicts : Depicts compilation position (level.config window operands effects) session)
    (member : item ∈ operands) (typed : hasScalar compilation.program item.1 scalar = true) :
    ∃ value, item.2 = .ofScalar scalar value := by
  obtain ⟨lazies, shows⟩ := depicts
  exact shows.exists_scalar member typed

theorem scalars_single {program : Program} {items : List Typed} {scalar : Scalar}
    (typed : haveScalars program (items.map Prod.fst) [scalar] = true) :
    ∃ item, items = [item] ∧ hasScalar program item.1 scalar = true := by
  cases List.forall₂_map_left_iff.1 (haveScalars_iff.1 typed) with
  | cons fits others =>
    cases others
    exact ⟨_, rfl, fits⟩

theorem scalars_pair {program : Program} {items : List Typed} {first second : Scalar}
    (typed : haveScalars program (items.map Prod.fst) [first, second] = true) :
    ∃ lower upper, items = [lower, upper] ∧ hasScalar program lower.1 first = true ∧
      hasScalar program upper.1 second = true := by
  cases List.forall₂_map_left_iff.1 (haveScalars_iff.1 typed) with
  | cons fits others =>
    obtain ⟨upper, rfl, upperFits⟩ :=
      scalars_single (haveScalars_iff.2 (List.forall₂_map_left_iff.2 others))
    exact ⟨_, upper, rfl, fits, upperFits⟩

variable {first second : Code} {input middle left right output : Scalar}

/-- An operator of one operand may follow any other whose result it takes. -/
theorem Calculates.unary {value : operation.output.Carrier}
    {apply : operation.output.Carrier → output.Carrier}
    (before : Calculates compilation first operation)
    (after : Calculates compilation second (.unary operation.output output apply))
    (placed : Placed compilation.image position (first ++ second))
    (typed : haveScalars compilation.program (items.map Prod.fst) operation.inputs = true)
    (resultTyped : hasScalar compilation.program result output = true)
    (depicts : Depicts compilation position (level.config window (items.reverse ++ rest) effects)
      session)
    (known : operation.apply (items.map Prod.snd) = .ok (.ofScalar operation.output value)) :
    session.Leads (Depicts compilation (position + Code.size (first ++ second))
      (level.config window ((result, .ofScalar output (apply value)) :: rest) effects)) := by
  obtain ⟨type, typeTyped⟩ := compilation.tables.exists_scalar operation.output
  have calculated := before.leads items rest placed.first typed typeTyped depicts
  rw [known] at calculated
  refine calculated.trans fun between shown => ?_
  have follows := after.leads [(type, .ofScalar operation.output value)] rest placed.second
    (by simpa [haveScalars, Operation.inputs] using typeTyped) resultTyped
    (show Depicts compilation _
      (level.config window ((type, .ofScalar operation.output value) :: rest) effects) _ from shown)
  rw [List.map_singleton, Operation.apply_unary, Nat.add_assoc, ← Code.size_append] at follows
  exact follows

theorem Calculates.unary_unary {before : input.Carrier → middle.Carrier}
    {after : middle.Carrier → output.Carrier}
    (calculates : Calculates compilation first (.unary input middle before))
    (follows : Calculates compilation second (.unary middle output after)) :
    Calculates compilation (first ++ second)
      (.unary input output fun value => after (before value)) := by
  refine ⟨fun {position level window effects} items rest {result session} placed typed resultTyped
    depicts => ?_⟩
  obtain ⟨item, rfl, itemTyped⟩ := scalars_single typed
  obtain ⟨value, same⟩ := depicts.exists_scalar (by simp) itemTyped
  have known : (Operation.unary input middle before).apply ([item].map Prod.snd) =
      .ok (.ofScalar middle (before value)) := by
    rw [List.map_singleton, same, Operation.apply_unary]
  have done := calculates.unary follows placed typed resultTyped depicts known
  rw [List.map_singleton, same, Operation.apply_unary]
  exact done

theorem Calculates.binary_unary {before : left.Carrier → right.Carrier → middle.Carrier}
    {after : middle.Carrier → output.Carrier}
    (calculates : Calculates compilation first (.binary left right middle before))
    (follows : Calculates compilation second (.unary middle output after)) :
    Calculates compilation (first ++ second)
      (.binary left right output fun lower upper => after (before lower upper)) := by
  refine ⟨fun {position level window effects} items rest {result session} placed typed resultTyped
    depicts => ?_⟩
  obtain ⟨lower, upper, rfl, lowerTyped, upperTyped⟩ := scalars_pair typed
  obtain ⟨lowerValue, lowerSame⟩ := depicts.exists_scalar (by simp) lowerTyped
  obtain ⟨upperValue, upperSame⟩ := depicts.exists_scalar (by simp) upperTyped
  have known : (Operation.binary left right middle before).apply ([lower, upper].map Prod.snd) =
      .ok (.ofScalar middle (before lowerValue upperValue)) := by
    rw [List.map_cons, List.map_singleton, lowerSame, upperSame, Operation.apply_binary]
  have done := calculates.unary follows placed typed resultTyped depicts known
  rw [List.map_cons, List.map_singleton, lowerSame, upperSame, Operation.apply_binary]
  exact done

theorem Calculates.constant_binary {value : right.Carrier}
    {apply : left.Carrier → right.Carrier → output.Carrier}
    (calculates : Calculates compilation first (.constant right value))
    (follows : Calculates compilation second (.binary left right output apply)) :
    Calculates compilation (first ++ second)
      (.unary left output fun operand => apply operand value) := by
  refine ⟨fun {position level window effects} items rest {result session} placed typed resultTyped
    depicts => ?_⟩
  obtain ⟨item, rfl, itemTyped⟩ := scalars_single typed
  obtain ⟨operand, same⟩ := depicts.exists_scalar (by simp) itemTyped
  obtain ⟨type, typeTyped⟩ := compilation.tables.exists_scalar right
  have loaded := calculates.leads [] (item :: rest) placed.first rfl typeTyped depicts
  refine loaded.trans fun between shown => ?_
  have done := follows.leads [item, (type, .ofScalar right value)] rest placed.second
    (by simp [haveScalars, Operation.inputs, itemTyped, typeTyped]) resultTyped
    (show Depicts compilation _
      (level.config window ((type, .ofScalar right value) :: item :: rest) effects) _ from shown)
  rw [List.map_cons, List.map_singleton, same, Operation.apply_binary, Nat.add_assoc,
    ← Code.size_append] at done
  rw [List.map_singleton, same, Operation.apply_unary]
  exact done

theorem not_decide {yes no : Prop} [Decidable yes] [Decidable no] (opposite : ¬yes ↔ no) :
    (!decide yes) = decide no := by
  rw [← decide_not]
  exact decide_eq_decide.2 opposite

theorem Calculates.negated {op : Opcode} {test opposite : left.Carrier → right.Carrier → Bool}
    (computes : Computes op (.binary left right .int fun lower upper => flag (test lower upper)))
    (same : ∀ lower upper, (!test lower upper) = opposite lower upper) :
    Calculates compilation (plain op ++ plain .notInt)
      (.binary left right .int fun lower upper => flag (opposite lower upper)) := by
  have negates : ∀ lower upper,
      flag (flag (test lower upper) == 0) = flag (opposite lower upper) := by
    intro lower upper
    rw [← same]
    cases test lower upper <;> rfl
  have whole := (show Calculates compilation _ _ from calculates_plain computes).binary_unary
    (calculates_plain computes_notInt)
  simpa only [negates] using whole

/-! ### Kinds -/

theorem calculates_appendChar :
    Calculates compilation (plain .appendChar)
      (.binary .string .int .string fun (text : Bytes) char => text.push (Exec.byteOf char)) := by
  refine ⟨fun {position level window effects} items rest {result session} placed typed resultTyped
    depicts => ?_⟩
  obtain ⟨⟨lowerType, lowerValue⟩, ⟨upperType, upperValue⟩, rfl, lowerTyped, upperTyped⟩ :=
    scalars_pair typed
  obtain ⟨text, rfl⟩ := depicts.exists_scalar (by simp) lowerTyped
  obtain ⟨char, rfl⟩ := depicts.exists_scalar (by simp) upperTyped
  rw [List.map_cons, List.map_singleton, Operation.apply_binary]
  have here : (Instruction.plain .appendChar).At compilation.image position := placed.single
  refine (depicts.moves here fun lazies fetched shows => ?_).leads
  obtain ⟨first, middle, popped, before, charStands, shown⟩ := shows.pop rfl
  obtain ⟨second, after, poppedText, shared, textStands, shown⟩ := shown.pop rfl
  change ∃ after, (do
    let byte := (← Exec.pop).toByte
    let word ← Exec.pop
    Exec.pushNew (.link word byte none) : Exec Unit) fetched = .ok () after ∧ _
  rw [exec_bind popped, exec_bind poppedText]
  have byte : first.toByte = Exec.byteOf char := by
    cases charStands
    rw [← byteOf_toInt, Word.toInt_ofInt]
  rw [byte]
  refine shown.pushObject fun heap word grows contains => ?_
  rw [← shared] at textStands
  cases grows textStands with
  | string _ spells => exact .string resultTyped (.link contains spells)

theorem calculates_operations {kind : FuncKind} {ops : List Opcode}
    (sequence : kind.operations? = some ops) (stands : operation? kind = some operation) :
    Calculates compilation (ops.flatMap plain) operation := by
  cases kind <;> cases sequence <;> cases stands
  case neInt => exact .negated (computes_intTest fun _ _ => rfl) fun _ _ => rfl
  case neBool => exact .negated (computes_intTest fun _ _ => rfl) fun _ _ => rfl
  case leInt => exact .negated (computes_intTest fun _ _ => rfl) fun _ _ => not_decide Int32.not_lt
  case geInt => exact .negated (computes_intTest fun _ _ => rfl) fun _ _ => not_decide Int32.not_lt
  case neLong => exact .negated (computes_longTest fun _ _ => rfl) fun _ _ => rfl
  case leLong =>
    exact .negated (computes_longTest fun _ _ => rfl) fun _ _ => not_decide Int64.not_lt
  case geLong =>
    exact .negated (computes_longTest fun _ _ => rfl) fun _ _ => not_decide Int64.not_lt
  case neFloat => exact .negated (computes_floatTest fun _ _ => rfl) fun _ _ => rfl
  case leFloat => exact .negated (computes_floatTest fun _ _ => rfl) fun _ _ => rfl
  case geFloat => exact .negated (computes_floatTest fun _ _ => rfl) fun _ _ => rfl
  case neString => exact .negated computes_eqString fun _ _ => rfl
  case eqInt | ltInt | gtInt | eqBool => exact calculates_plain (computes_intTest fun _ _ => rfl)
  case eqLong | ltLong | gtLong => exact calculates_plain (computes_longTest fun _ _ => rfl)
  case eqFloat | ltFloat | gtFloat => exact calculates_plain (computes_floatTest fun _ _ => rfl)
  case notBool => exact calculates_plain computes_notInt
  case eqString => exact calculates_plain computes_eqString
  case combineChars => exact calculates_plain computes_combineChars
  case charToString => exact calculates_plain computes_charToString
  case intToChar => exact calculates_plain computes_intToChar
  case appendChar => exact calculates_appendChar
  all_goals exact calculates_plain fun _ _ => rfl

theorem calculates_kind {decl : FuncDecl} {arguments : List Expr} {mode : UInt8} {tail : Bool}
    {code : Code} {kind : FuncKind} (known : FuncKind.ofCode? decl.kind = some kind)
    (stands : operation? kind = some operation)
    (follows : Lowering.afterArguments decl arguments mode tail = .ok code) :
    Calculates compilation code operation := by
  unfold Lowering.afterArguments at follows
  simp only [known] at follows
  cases sequence : kind.operations? with
  | some ops =>
    simp only [sequence] at follows
    cases follows
    exact calculates_operations sequence stands
  | none =>
    simp only [sequence] at follows
    cases kind <;> cases stands <;> cases sequence <;> cases follows
    case none.incrementInt | none.decrementInt =>
      exact .constant_binary (calculates_loadInt 1) (calculates_plain fun _ _ => rfl)
    case none.incrementLong | none.decrementLong =>
      exact .constant_binary (calculates_loadLong 1) (calculates_plain fun _ _ => rfl)
    case none.incrementFloat | none.decrementFloat =>
      exact .constant_binary (calculates_loadFloat _) (calculates_plain fun _ _ => rfl)
    case none.incrementChar | none.decrementChar =>
      exact .unary_unary
        (.constant_binary (calculates_loadInt 1) (calculates_plain fun _ _ => rfl))
        (calculates_plain computes_intToChar)
    case none.defaultInt | none.defaultBool => exact calculates_loadInt 0
    case none.defaultLong => exact calculates_loadLong 0
    case none.defaultFloat => exact calculates_loadFloat 0
    case none.defaultString => exact calculates_loadString ByteArray.empty

end

section

variable {compilation : Compilation} {lazies : Lazies} {position : Nat} {config : Config}
variable {session : Session} {items rest : List Typed} {item : Typed} {result : TypeId}
variable {level : Level} {window : List (Option Typed)} {effects : Effects}
variable {type : TypeId} {invoke : Invoke} {fuel : Nat} {code : Code} {kind : FuncKind}
variable {operation : Operation} {decl : FuncDecl} {arguments : List Expr} {mode : UInt8}
variable {tail : Bool} {call : PlatformCall}

/-! ## Operators -/

theorem kindFits_operator {program : Program} (stands : operation? kind = some operation)
    (input : List TypeId) (output : TypeId) :
    kindFits program kind input output =
      (haveScalars program input operation.inputs &&
        hasScalar program output operation.output) := by
  unfold kindFits
  rw [stands]

theorem builtin_operator (stands : operation? kind = some operation) (invoke : Invoke)
    (values : List Value) :
    builtin invoke kind values =
      match operation.apply values with
      | .ok value => return value
      | .error stop => throw stop := by
  unfold builtin
  exact stands ▸ rfl

theorem agrees_operator (stands : operation? kind = some operation)
    (calculates : Calculates compilation code operation)
    (placed : Placed compilation.image position code)
    (fits : kindFits compilation.program kind (items.map Prod.fst) result = true)
    (depicts : Depicts compilation position (level.config window (items.reverse ++ rest) effects)
      session) :
    Agrees compilation id fuel (builtin invoke kind (items.map Prod.snd) effects)
      (fun value effects => Depicts compilation (position + Code.size code)
        (level.config window ((result, value) :: rest) effects)) session := by
  rw [kindFits_operator stands, Bool.and_eq_true] at fits
  have led := calculates.leads items rest placed fits.1 fits.2 depicts
  rw [builtin_operator stands]
  cases outcome : operation.apply (items.map Prod.snd) with
  | ok value =>
    rw [outcome] at led
    exact led
  | error stop =>
    rw [outcome] at led
    cases stop with
    | ended state => exact led
    | unset slot => exact trivial
    | illTyped => exact led
    | outOfFuel => exact led.lasts fun _ none => none.elim

/-! ## Values of one representation -/

theorem covers_scalar {scalar : Scalar} {other : TypeId} {value : scalar.Carrier}
    (typed : hasScalar compilation.program other scalar = true) :
    Covers compilation (type, .ofScalar scalar value) (other, .ofScalar scalar value) := by
  intro lazies heap word represents
  cases scalar with
  | int =>
    cases represents
    exact .int _ typed
  | long =>
    cases represents with
    | long _ stored => exact .long typed stored
  | float =>
    cases represents
    exact .float _ typed
  | string =>
    cases represents with
    | string _ spells => exact .string typed spells

theorem covers_empty {other : TypeId} {value : Value}
    (shape : shape? compilation.program other = some (.struct [])) :
    Covers compilation (type, value) (other, .struct []) :=
  fun _ => .empty _ shape

theorem covers_single {field : TypeId} {value : Value}
    (shape : shape? compilation.program type = some (.struct [field])) :
    Covers compilation (field, value) (type, .struct [value]) :=
  fun represents => .single shape represents

/-! ## Constructors -/

/-- Several operands are taken off one by one. -/
theorem Depicts.popAll {extra : List Typed}
    (depicts : Depicts compilation position (level.config window (extra ++ rest) effects) session)
    (placed : Placed compilation.image position
      (List.replicate extra.length (plain .pop)).flatten) :
    session.Leads (Depicts compilation
      (position + Code.size (List.replicate extra.length (plain .pop)).flatten)
      (level.config window rest effects)) := by
  induction extra generalizing position session with
  | nil => exact .here depicts
  | cons item extra ih =>
    rw [List.length_cons, List.replicate_succ, List.flatten_cons] at placed ⊢
    refine (depicts.pop placed.first.single).leads.trans fun after shown => ?_
    have others := ih shown placed.second
    rw [Code.size_append, ← Nat.add_assoc]
    exact others

/-- A call that does nothing keeps its first argument. -/
theorem agrees_noOp (known : FuncKind.ofCode? decl.kind = some .noOp)
    (follows : Lowering.afterArguments decl arguments mode tail = .ok code)
    (length : arguments.length = items.length) (placed : Placed compilation.image position code)
    (fits : kindFits compilation.program .noOp (items.map Prod.fst) result = true)
    (depicts : Depicts compilation position (level.config window (items.reverse ++ rest) effects)
      session) :
    Agrees compilation id fuel (builtin invoke .noOp (items.map Prod.snd) effects)
      (fun value effects => Depicts compilation (position + Code.size code)
        (level.config window ((result, value) :: rest) effects)) session := by
  unfold Lowering.afterArguments at follows
  simp only [known, show FuncKind.noOp.operations? = none from rfl] at follows
  cases items with
  | nil =>
    cases List.length_eq_zero_iff.1 length
    cases follows
    exact (depicts.loadInt placed.single fits).leads
  | cons first others =>
    have some : arguments.isEmpty = false := by
      cases arguments with
      | nil => cases length
      | cons _ _ => rfl
    rw [some, if_neg Bool.false_ne_true] at follows
    cases follows
    have count : arguments.length - 1 = others.reverse.length := by
      rw [length, List.length_cons, List.length_reverse]
      omega
    rw [count] at placed ⊢
    rw [List.reverse_cons, List.append_assoc, List.singleton_append] at depicts
    have member : first ∈ others.reverse ++ first :: rest := by simp
    have covers : Covers compilation first (result, first.2) := by
      change (first.1 == result || (hasScalar compilation.program first.1 .int &&
        hasScalar compilation.program result .int)) = true at fits
      simp only [Bool.or_eq_true, beq_iff_eq, Bool.and_eq_true] at fits
      rcases fits with same | ⟨firstTyped, resultTyped⟩
      · subst same
        exact fun represents => represents
      · obtain ⟨value, same⟩ := depicts.exists_scalar member firstTyped
        obtain ⟨type, content⟩ := first
        cases same
        exact @covers_scalar compilation _ .int _ _ resultTyped
    exact (depicts.popAll placed).mono fun after shown => shown.retype covers

theorem represents_wide {heap : Heap} {word : Word} {fields : Array Word}
    (shape : shape? compilation.program result = some (.struct (items.map Prod.fst)))
    (many : 2 ≤ items.length) (contains : heap.Contains word (.struct fields))
    (represents : RepresentsAll compilation lazies heap items fields.toList) :
    Represents compilation lazies heap result (.struct (items.map Prod.snd)) word := by
  obtain ⟨same, each⟩ := List.forall₂_iff_zip.1 represents
  exact .wide shape many contains same fun item field member => each member

theorem toNat_of_sizeByte {count : Nat} {byte : UInt8}
    (fits : Lowering.sizeByte count = .ok byte) : byte.toNat = count := by
  unfold Lowering.sizeByte at fits
  split at fits
  · next small =>
    cases fits
    simpa using Nat.mod_eq_of_lt small
  · cases fits

theorem agrees_makeStruct (known : FuncKind.ofCode? decl.kind = some .makeStruct)
    (follows : Lowering.afterArguments decl arguments mode tail = .ok code)
    (length : arguments.length = items.length) (placed : Placed compilation.image position code)
    (fits : kindFits compilation.program .makeStruct (items.map Prod.fst) result = true)
    (depicts : Depicts compilation position (level.config window (items.reverse ++ rest) effects)
      session) :
    Agrees compilation id fuel (builtin invoke .makeStruct (items.map Prod.snd) effects)
      (fun value effects => Depicts compilation (position + Code.size code)
        (level.config window ((result, value) :: rest) effects)) session := by
  have shape : shape? compilation.program result = some (.struct (items.map Prod.fst)) :=
    beq_iff_eq.1 fits
  unfold Lowering.afterArguments at follows
  simp only [known, show FuncKind.makeStruct.operations? = none from rfl] at follows
  match arguments, items with
  | [], [] =>
    cases follows
    have typed : hasScalar compilation.program TypeId.int .int = true :=
      hasScalar_of_kind compilation.tables.int (by simp)
    exact (depicts.loadInt placed.single typed).leads.mono fun after shown =>
      shown.retype (covers_empty shape)
  | [_], [item] =>
    cases follows
    exact .here (depicts.retype (covers_single shape))
  | first :: second :: others, items =>
    obtain ⟨byte, small, same⟩ := Lowering.except_bind_eq_ok.1 follows
    cases same
    have many : 2 ≤ items.length := by
      rw [← length]
      simp
    refine (depicts.makeStruct _ placed.single ?_ fun contains represents =>
      represents_wide shape many contains represents).leads
    rw [← length]
    exact (toNat_of_sizeByte small).symm

/-! ## Actions -/

theorem Shows.write (change : Platform → Platform) {output errors : Bytes}
    (shows : Shows compilation lazies position config session)
    (written : ∀ platform : Platform, platform.output = config.effects.output →
      platform.errors = config.effects.errors →
        (change platform).output = output ∧ (change platform).errors = errors) :
    Shows compilation lazies position
      { config with effects := { config.effects with output, errors } }
      { session with shared :=
          { session.shared with platform := change session.shared.platform } } := by
  refine { shows with surface := ?_ }
  have seen := shows.surface
  unfold Shared.surface Compilation.surface at seen ⊢
  rw [Surface.mk.injEq] at seen ⊢
  obtain ⟨assembly, aborting, spawned, shown⟩ := seen
  refine ⟨assembly, aborting, spawned, ?_⟩
  cases journal : session.shared.journal with
  | console =>
    simp only [journal] at shown
    cases shown
  | off =>
    simp only [journal, Option.some.injEq, Prod.mk.injEq] at shown ⊢
    exact written _ shown.1 shown.2
  | kept text =>
    simp only [journal, Option.some.injEq, Prod.mk.injEq] at shown ⊢
    exact written _ shown.1 shown.2

theorem Shows.writeConsole (shows : Shows compilation lazies position config session)
    (text : Bytes) :
    ∃ after, Exec.writeConsole text session = .ok () after ∧
      Shows compilation lazies position
        { config with effects :=
          { config.effects with output := config.effects.output ++ text } } after :=
  ⟨_, rfl, shows.write (·.writeOutput text) fun _ output errors =>
    ⟨congrArg (· ++ text) output, errors⟩⟩

theorem Depicts.platformCall {goal : Session → Prop}
    (depicts : Depicts compilation position config session)
    (here : (Instruction.platformCall call.code).At compilation.image position)
    (performs : ∀ lazies fetched, Shows compilation lazies (position + 2) config fetched →
      ∃ after, Exec.platformCall call fetched = .ok () after ∧ goal after)
    (settled : ∀ after, goal after → after.executor.wait = none) : Advances session goal := by
  refine depicts.advances here (fun lazies fetched shows => ?_) settled
  have operand : compilation.image.assembly.code.byteAt (position + 1) = call.code := here.operands
  obtain ⟨after, performed, reached⟩ := performs lazies fetched shows
  refine ⟨after, ?_, Or.inl reached⟩
  unfold Exec.perform
  simp only [Instruction.op, operand, PlatformCall.ofCode?_code]
  exact performed

theorem Shows.peekText {text : Bytes} (shows : Shows compilation lazies position config session)
    (top : config.operands = (type, .string text) :: rest) :
    ∃ after, (do Exec.text (← Exec.peek) : Exec Bytes) session = .ok text after ∧
      Shows compilation lazies position config after := by
  obtain ⟨word, peeked, represents⟩ := shows.peek top
  cases represents with
  | string _ spells =>
    obtain ⟨after, read, _, shown⟩ := shows.text spells
    exact ⟨after, (exec_bind peeked).trans read, shown⟩

theorem exec_bind_bind {α β : Type} {peek : Exec Word} {read : Word → Exec α} {use : α → Exec β}
    {session middle : Session} {value : α} (done : (peek >>= read) session = .ok value middle) :
    (peek >>= fun word => read word >>= use) session = use value middle := by
  rw [← bind_assoc]
  exact exec_bind done

theorem Depicts.writes {scalar : Scalar} {value : scalar.Carrier} {text : Bytes}
    (depicts : Depicts compilation position
      (level.config window ((type, .ofScalar scalar value) :: rest) effects) session)
    (here : (Instruction.platformCall call.code).At compilation.image position)
    (typed : hasScalar compilation.program result scalar = true)
    (reads : ∀ lazies fetched, Shows compilation lazies (position + 2)
        (level.config window ((type, .ofScalar scalar value) :: rest) effects) fetched →
      ∃ after, Exec.platformCall call fetched = Exec.writeConsole text after ∧
        Shows compilation lazies (position + 2)
          (level.config window ((type, .ofScalar scalar value) :: rest) effects) after) :
    session.Leads (Depicts compilation (position + 2)
      (level.config window ((result, .ofScalar scalar value) :: rest)
        { effects with output := effects.output ++ text })) := by
  refine (depicts.platformCall here (fun lazies fetched shows => ?_) fun _ ⟨_, shows⟩ =>
    shows.wait).leads
  obtain ⟨middle, read, shown⟩ := reads lazies fetched shows
  obtain ⟨after, wrote, final⟩ := shown.writeConsole text
  exact ⟨after, read.trans wrote, Depicts.retype ⟨lazies, final⟩ (covers_scalar typed)⟩

theorem Depicts.assert {messageType : TypeId} {condition : Int32} {message : Bytes}
    (depicts : Depicts compilation position
      (level.config window ((messageType, .string message) :: (type, .int condition) :: rest)
        effects)
      session)
    (here : (Instruction.platformCall PlatformCall.assert.code).At compilation.image position) :
    session.Leads fun after =>
      if condition == 0 then
        Ended compilation .assertFailed
          { effects with
            errors := effects.errors ++ ("Assertion failed: " ++ message ++ "\n") } after
      else Depicts compilation (position + 2)
        (level.config window ((type, .int condition) :: rest) effects) after := by
  refine (depicts.platformCall here (fun lazies fetched shows => ?_) fun after reached => ?_).leads
  · obtain ⟨middle, popped, shown⟩ := shows.popScalar .string rfl
    obtain ⟨word, peeked, represents⟩ := shown.peek rfl
    have holds : word.toBool = (condition != 0) := by
      cases represents
      unfold Word.toBool
      rw [Word.toInt_ofInt]
    change ∃ after, Exec.assert fetched = .ok () after ∧ _
    unfold Exec.assert
    rw [exec_bind (show Exec.popText fetched = _ from popped), exec_bind peeked, holds]
    by_cases zero : (condition == 0) = true
    · have fails : (!condition != 0) = true := by simpa [bne] using zero
      rw [if_pos fails]
      simp only [zero, if_true]
      have shown := shown.write (·.writeErrors ("Assertion failed: " ++ message ++ "\n"))
        fun _ output errors =>
          ⟨output, congrArg (· ++ ("Assertion failed: " ++ message ++ "\n")) errors⟩
      obtain ⟨after, failed, ended⟩ := shown.end .assertFailed
      refine ⟨after, ?_, ended⟩
      rw [← failed]
      rfl
    · have succeeds : ¬(!condition != 0) = true := by simpa [bne] using zero
      rw [if_neg succeeds]
      refine ⟨middle, rfl, ?_⟩
      simp only [zero, Bool.false_eq_true, if_false]
      exact ⟨lazies, shown⟩
  · split at reached
    · exact reached.wait
    · obtain ⟨_, shows⟩ := reached
      exact shows.wait

theorem agrees_action (known : FuncKind.ofCode? decl.kind = some (.action call))
    (follows : Lowering.afterArguments decl arguments mode tail = .ok code)
    (placed : Placed compilation.image position code)
    (fits : kindFits compilation.program (.action call) (items.map Prod.fst) result = true)
    (depicts : Depicts compilation position (level.config window (items.reverse ++ rest) effects)
      session) :
    Agrees compilation id fuel (builtin invoke (.action call) (items.map Prod.snd) effects)
      (fun value effects => Depicts compilation (position + Code.size code)
        (level.config window ((result, value) :: rest) effects)) session := by
  unfold Lowering.afterArguments at follows
  simp only [known, show (FuncKind.action call).operations? = none from rfl] at follows
  cases follows
  have here : (Instruction.platformCall call.code).At compilation.image position := placed.single
  change actionFits compilation.program call (items.map Prod.fst) result = true at fits
  change Agrees compilation id fuel (act call (items.map Prod.snd) effects) _ session
  unfold actionFits at fits
  cases call
  case writeChar =>
    rw [Bool.and_eq_true] at fits
    obtain ⟨⟨type, value⟩, rfl, typed⟩ := scalars_single fits.1
    obtain ⟨char, rfl⟩ := depicts.exists_scalar (by simp) typed
    refine depicts.writes here fits.2 fun lazies fetched shows => ⟨fetched, ?_, shows⟩
    obtain ⟨word, peeked, represents⟩ := shows.peek rfl
    have byte : word.toByte = Exec.byteOf char := by
      cases represents
      rw [← byteOf_toInt, Word.toInt_ofInt]
    rw [← byte]
    exact exec_bind peeked
  case writeString =>
    rw [Bool.and_eq_true] at fits
    obtain ⟨⟨type, value⟩, rfl, typed⟩ := scalars_single fits.1
    obtain ⟨text, rfl⟩ := depicts.exists_scalar (by simp) typed
    refine depicts.writes here fits.2 fun lazies fetched shows => ?_
    obtain ⟨after, read, shown⟩ := shows.peekText rfl
    exact ⟨after, exec_bind_bind read, shown⟩
  case writeLine =>
    rw [Bool.and_eq_true] at fits
    obtain ⟨⟨type, value⟩, rfl, typed⟩ := scalars_single fits.1
    obtain ⟨text, rfl⟩ := depicts.exists_scalar (by simp) typed
    refine depicts.writes here fits.2 fun lazies fetched shows => ?_
    obtain ⟨after, read, shown⟩ := shows.peekText rfl
    exact ⟨after, exec_bind_bind read, shown⟩
  case assert =>
    rw [Bool.and_eq_true] at fits
    obtain ⟨⟨type, value⟩, ⟨messageType, content⟩, rfl, typed, messageTyped⟩ :=
      scalars_pair fits.1
    obtain ⟨condition, rfl⟩ := depicts.exists_scalar (by simp) typed
    obtain ⟨message, rfl⟩ := depicts.exists_scalar (by simp) messageTyped
    have asserted := depicts.assert here
    by_cases zero : (condition == 0) = true
    · have outcome : act .assert [.int condition, .string message] effects =
          .error (.ended .assertFailed) { effects with
            errors := effects.errors ++ ("Assertion failed: " ++ message ++ "\n") } := by
        simp only [act, zero, if_true]
        rfl
      simp only [zero, if_true] at asserted
      change Agrees compilation id fuel (act .assert [.int condition, .string message] effects)
        _ session
      rw [outcome]
      exact asserted
    · have outcome : act .assert [.int condition, .string message] effects =
          .ok (.int condition) effects := by
        simp only [act, zero, Bool.false_eq_true, if_false]
        rfl
      simp only [zero, Bool.false_eq_true, if_false] at asserted
      change Agrees compilation id fuel (act .assert [.int condition, .string message] effects)
        _ session
      rw [outcome]
      refine Session.Leads.mono asserted fun after shown => ?_
      exact shown.retype (@covers_scalar compilation _ .int _ _ fits.2)
  all_goals cases fits

end

end WordMachine.Evaluation
