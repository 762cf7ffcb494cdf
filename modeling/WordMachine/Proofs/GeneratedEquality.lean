import WordMachine.Proofs.QuietRuns

/-!
What the equality functions of a program do. Each compares two values of its type and returns
whether they are structurally equal; parts that are structs or unions are compared by calls of
their own functions, so the proof is by induction on one of the values.
-/

namespace WordMachine.Equality

open Lowering (Code CodeUnit ComparesFields EqualityBody Layout Nullable SelectsMember UnitCode
  answer bind callTo compareMembers compareMembers_cons compareValues comparesFields_cons
  comparesFields_nil emit equalityLabel equalityTypes fieldByte fragments generate generate_eq_ok
  isUserType joined layout_of_joined loadBoth nullable? plain selectsMember_cons selectsMember_nil
  statementLabel units)
open Lowering.Code (Laid laid_append)

/-! ## Room -/

/-- Whether the stacks may be too short for the calls that compare values of some depth. Each call
takes a frame and two constants. -/
def Cramped (bounds : Bounds) (window : Window) (depth : Nat) : Prop :=
  bounds.constants < window.constants.length + 2 * depth ∨
    bounds.frames < window.frames.size + depth

/-- The window of an equality function with its operands stored. -/
def comparing (window : Window) (returnTo : UInt32) (left right : Word) : Window :=
  { window.called returnTo with constants := window.constants ++ [left, right] }

section

variable {bounds : Bounds} {window : Window} {returnTo : UInt32} {leftWord rightWord : Word}

theorem Cramped.mono {depth more : Nat} (cramped : Cramped bounds window depth)
    (deeper : depth ≤ more) : Cramped bounds window more := by
  unfold Cramped at cramped ⊢
  omega

/-- A function that is called has one frame less and two constants less. -/
theorem Cramped.of_comparing {depth : Nat}
    (cramped : Cramped bounds (comparing window returnTo leftWord rightWord) depth) :
    Cramped bounds window (depth + 1) := by
  unfold Cramped comparing Window.called at cramped
  unfold Cramped
  simp only [List.length_append, List.length_cons, List.length_nil, Array.size_push] at cramped
  omega

end

/-! ## Parts of equality functions -/

section

variable {program : Program} {image : Image} {bounds : Bounds} {origin : Heap}
variable {window : Window} {returnTo : UInt32} {leftWord rightWord : Word} {rest : List Word}
variable {session : Session} {place : Nat} {cramped : Prop} {scope : Bytes} {type : TypeId}
variable {code : Code}

theorem inside_of_laid {instruction : Instruction}
    (laid : Laid image place (code ++ emit instruction)) : place < image.assembly.code.size := by
  have inside := ((laid_append _ _ _).1 laid).2.1.inside
  have positive : 0 < instruction.op.size := by
    unfold Opcode.size
    omega
  omega

/-- An equality function first stores its operands. -/
theorem comes_body (layout : Layout program image) (bound : image.Bound (equalityLabel type)) :
    ∃ body place, EqualityBody program (equalityLabel type) type body ∧ Laid image place body ∧
      ∀ {session : Session} {window : Window} {returnTo : UInt32} {leftWord rightWord : Word}
        {rest : List Word} {depth : Nat},
        session.Poised image bounds origin (image.address (equalityLabel type))
          (rightWord :: leftWord :: rest) (window.called returnTo) →
        session.Comes (Cramped bounds window (depth + 1)) fun after =>
          after.Poised image bounds origin place rest
            (comparing window returnTo leftWord rightWord) := by
  obtain ⟨start, code, unitCode, laid, _⟩ := layout.equality type bound
  cases unitCode with
  | equality _ body compares =>
    obtain ⟨laidBody, _⟩ := (laid_append _ _ _).1 laid
    obtain ⟨⟨starts, reserves, storesRight, storesLeft, _⟩, laidBody⟩ :=
      (laid_append _ _ _).1 laidBody
    refine ⟨body, _, compares, laidBody, ?_⟩
    intro session window returnTo leftWord rightWord rest depth poised
    rw [starts] at poised
    refine (poised.reserve layout.small reserves rfl fun short => ?_).trans id
      fun after poised => ?_
    · left
      change bounds.constants < window.constants.length + 2 at short
      omega
    refine (poised.storeConst layout.small storesRight ?_).trans id fun after poised => ?_
    · simp [Window.called]
    refine (poised.storeConst layout.small storesLeft ?_).mono fun after poised => ?_
    · simp [Window.called]
    have stored : (window.constants ++ List.replicate 2 0).set (window.constants.length + 1)
        rightWord = window.constants ++ [0, rightWord] := by
      simp
    have both : (window.constants ++ [0, rightWord]).set (window.constants.length + 0)
        leftWord = window.constants ++ [leftWord, rightWord] := by
      simp
    rw [show (UInt8.toNat 2) = 2 from rfl] at poised
    change after.Poised image bounds origin _ rest { window.called returnTo with
      constants := ((window.constants ++ List.replicate 2 0).set (window.constants.length + 1)
        rightWord).set (window.constants.length + 0) leftWord } at poised
    rw [stored, both] at poised
    exact poised

theorem comes_answer {value : Int32} (small : image.assembly.code.size < 2 ^ 32)
    (laid : Laid image place (answer value)) (poised : session.Poised image bounds origin place rest
      (comparing window returnTo leftWord rightWord)) (room : rest.length < bounds.operands) :
    session.Comes cramped fun after =>
      after.Poised image bounds origin returnTo.toNat (.ofInt value :: rest) window := by
  obtain ⟨loads, returns, _⟩ := laid
  refine (poised.loadInt small loads room).trans id fun after poised => ?_
  exact poised.ret small returns

theorem comparing_left :
    (comparing window returnTo leftWord rightWord).constants[
      (comparing window returnTo leftWord rightWord).base + (0 : UInt8).toNat]? =
        some leftWord := by
  simp [comparing, Window.called]

theorem comparing_right :
    (comparing window returnTo leftWord rightWord).constants[
      (comparing window returnTo leftWord rightWord).base + (1 : UInt8).toNat]? =
        some rightWord := by
  simp [comparing, Window.called]

theorem comes_loadBoth {position : UInt8} {lefts rights : Array Word} {left right : Word}
    (small : image.assembly.code.size < 2 ^ 32) (laid : Laid image place (loadBoth position))
    (poised : session.Poised image bounds origin place rest
      (comparing window returnTo leftWord rightWord)) (room : rest.length + 2 ≤ bounds.operands)
    (leftStored : origin.Contains leftWord (.struct lefts))
    (rightStored : origin.Contains rightWord (.struct rights))
    (leftField : lefts[position.toNat]? = some left)
    (rightField : rights[position.toNat]? = some right) :
    session.Comes cramped fun after => after.Poised image bounds origin
      (place + Code.size (loadBoth position)) (right :: left :: rest)
      (comparing window returnTo leftWord rightWord) := by
  obtain ⟨loadsLeft, selectsLeft, loadsRight, selectsRight, _⟩ := laid
  have one : rest.length < bounds.operands := by omega
  have two : (left :: rest).length < bounds.operands := by
    rw [List.length_cons]
    omega
  refine (poised.loadConst small loadsLeft comparing_left one).trans id fun after poised => ?_
  refine (poised.loadField small selectsLeft leftStored leftField one).trans id
    fun after poised => ?_
  refine (poised.loadConst small loadsRight comparing_right two).trans id fun after poised => ?_
  exact poised.loadField small selectsRight rightStored rightField two

/-! ## Comparing parts -/

/-- Whether the equality function of a type, called with the word of a value, tells whether another
value is equal to it. -/
def Decides (program : Program) (image : Image) (bounds : Bounds) (origin : Heap) (type : TypeId)
    (left : Datum) (leftWord : Word) : Prop :=
  ∀ {right : Datum} {rightWord : Word} {rest : List Word} {window : Window} {returnTo : UInt32}
    {session : Session},
    image.Bound (equalityLabel type) →
    Represents program origin type right rightWord →
    rest.length + 2 ≤ bounds.operands →
    session.Poised image bounds origin (image.address (equalityLabel type))
      (rightWord :: leftWord :: rest) (window.called returnTo) →
    session.Comes (Cramped bounds window left.depth) fun after =>
      after.Poised image bounds origin returnTo.toNat (.ofBool (left.equal right) :: rest) window

/-- Two values of a type and their words. If the type has an equality function, it decides on
them. -/
structure Comparable (program : Program) (image : Image) (bounds : Bounds) (origin : Heap)
    (type : TypeId) (left right : Datum) (leftWord rightWord : Word) : Prop where
  leftStands : Represents program origin type left leftWord
  rightStands : Represents program origin type right rightWord
  decides : isUserType program type = true → Decides program image bounds origin type left leftWord

theorem near_of_bound (layout : Layout program image) (bound : image.Bound (equalityLabel type)) :
    image.address (equalityLabel type) < 2 ^ 32 := by
  obtain ⟨start, code, unitCode, laid, _⟩ := layout.equality type bound
  cases unitCode with
  | equality _ body compares =>
    have starts : image.address (equalityLabel type) = start := laid.1
    rw [starts]
    exact Nat.lt_trans (inside_of_laid laid) layout.small

theorem comes_compareValues {left right : Datum} {compare : Code} (layout : Layout program image)
    (comparable : Comparable program image bounds origin type left right leftWord rightWord)
    (compared : compareValues program type = .ok compare) (laid : Laid image place compare)
    (poised : session.Poised image bounds origin place (rightWord :: leftWord :: rest) window)
    (room : rest.length + 2 ≤ bounds.operands) :
    session.Comes (Cramped bounds window left.depth) fun after => after.Poised image bounds origin
      (place + Code.size compare) (.ofBool (left.equal right) :: rest) window := by
  have one : rest.length < bounds.operands := by omega
  obtain ⟨kind, known, leftKind⟩ := comparable.leftStands.hasKind
  have rightKind := comparable.rightStands.kind_of known
  have calls : kind = .struct ∨ kind = .union → 0 < left.depth →
      session.Comes (Cramped bounds window left.depth) fun after => after.Poised image bounds origin
        (place + Code.size compare) (.ofBool (left.equal right) :: rest) window := by
    intro user deep
    have same : compare = callTo (equalityLabel type) 2 .normal := by
      rcases user with rfl | rfl <;> simp only [compareValues, known] at compared <;>
        exact (Except.ok.inj compared).symm
    have isUser : isUserType program type = true := by
      rcases user with rfl | rfl <;> simp [isUserType, known]
    subst same
    obtain ⟨here, _⟩ := laid
    have bound := here.bound _ rfl
    have inside : place + 7 ≤ image.assembly.code.size := here.inside
    refine (poised.call layout.small here (near_of_bound layout bound) fun full => ?_).trans id
      fun after poised => ?_
    · right
      omega
    refine (comparable.decides isUser bound comparable.rightStands room poised).mono
      fun after poised => ?_
    rw [UInt32.toNat_ofNat_of_lt' (Nat.lt_of_le_of_lt inside layout.small)] at poised
    exact poised
  have single : ∀ {op : Opcode}, compareValues program type = .ok (plain op) →
      compare = plain op ∧ (Instruction.plain op).At image place := by
    intro op expected
    rw [compared] at expected
    cases expected
    exact ⟨rfl, laid.1⟩
  have leftStands := comparable.leftStands
  have rightStands := comparable.rightStands
  cases left <;> cases right
  case int.int leftValue rightValue =>
    have number : compareValues program type = .ok (plain .eqInt) := by
      rcases leftKind with rfl | rfl | rfl | rfl <;> simp only [compareValues, known]
    obtain ⟨rfl, here⟩ := single number
    cases leftStands
    cases rightStands
    exact poised.eqInt layout.small here one
  case long.long leftValue rightValue =>
    have long : compareValues program type = .ok (plain .eqLong) := by
      simp only [compareValues, known, show kind = .long from leftKind]
    obtain ⟨rfl, here⟩ := single long
    cases leftStands with
    | long _ leftStored =>
      cases rightStands with
      | long _ rightStored => exact poised.eqLong layout.small here one leftStored rightStored
  case float.float leftBits rightBits =>
    have float : compareValues program type = .ok (plain .eqFloat) := by
      simp only [compareValues, known, show kind = .float from leftKind]
    obtain ⟨rfl, here⟩ := single float
    cases leftStands
    cases rightStands
    exact poised.eqFloat layout.small here one
  case text.text leftContent rightContent =>
    have text : compareValues program type = .ok (plain .eqString) := by
      simp only [compareValues, known, show kind = .string from leftKind]
    obtain ⟨rfl, here⟩ := single text
    cases leftStands with
    | text _ leftSpells =>
      cases rightStands with
      | text _ rightSpells => exact poised.eqString layout.small here one leftSpells rightSpells
  case struct.struct leftFields rightFields => exact calls (Or.inl leftKind) (Nat.succ_pos _)
  case union.union leftNumber left rightNumber right =>
    exact calls (Or.inr leftKind) (Nat.succ_pos _)
  -- Values of one type are of one kind.
  all_goals simp_all [Datum.HasKind, IsNumber]

/-! ## Structs -/

theorem toNat_of_fieldByte {position : Nat} {byte : UInt8}
    (fits : fieldByte (position : Int) = .ok byte) : byte.toNat = position := by
  unfold fieldByte at fits
  split at fits
  · next bounds =>
    cases fits
    rw [Int.toNat_natCast]
    exact UInt8.toNat_ofNat_of_lt' (by
      change position < 256
      omega)
  · cases fits

/-- Whether the fields of two structs from a position on can be compared. -/
def FieldsComparable (program : Program) (image : Image) (bounds : Bounds) (origin : Heap)
    (position : Nat) (fields : List FieldDecl) (lefts rights : List Datum)
    (leftWords rightWords : Array Word) : Prop :=
  ∀ (index : Nat) (field : FieldDecl) (left right : Datum), fields[index]? = some field →
    lefts[index]? = some left → rights[index]? = some right →
      ∃ leftWord rightWord, leftWords[position + index]? = some leftWord ∧
        rightWords[position + index]? = some rightWord ∧
        Comparable program image bounds origin field.type left right leftWord rightWord

theorem comes_compareFields {position depth : Nat} {fields : List FieldDecl}
    {lefts rights : List Datum} {leftWords rightWords : Array Word} (layout : Layout program image)
    (compares : ComparesFields program scope position fields code)
    (laid : Laid image place (code ++ answer 1))
    (leftStored : origin.Contains leftWord (.struct leftWords))
    (rightStored : origin.Contains rightWord (.struct rightWords))
    (leftLength : lefts.length = fields.length) (rightLength : rights.length = fields.length)
    (comparable : FieldsComparable program image bounds origin position fields lefts rights
      leftWords rightWords) (shallow : ∀ left ∈ lefts, left.depth ≤ depth)
    (poised : session.Poised image bounds origin place rest
      (comparing window returnTo leftWord rightWord)) (room : rest.length + 2 ≤ bounds.operands) :
    session.Comes (Cramped bounds (comparing window returnTo leftWord rightWord) depth)
      fun after => after.Poised image bounds origin returnTo.toNat
        (.ofBool (Datum.equalAll lefts rights) :: rest) window := by
  have one : rest.length < bounds.operands := by omega
  induction fields generalizing position code lefts rights place session with
  | nil =>
    obtain rfl := List.length_eq_zero_iff.1 leftLength
    obtain rfl := List.length_eq_zero_iff.1 rightLength
    rw [comparesFields_nil compares] at laid
    exact comes_answer layout.small laid poised one
  | cons field fields ih =>
    obtain ⟨left, lefts, rfl⟩ := List.exists_cons_of_length_eq_add_one leftLength
    obtain ⟨right, rights, rfl⟩ := List.exists_cons_of_length_eq_add_one rightLength
    obtain ⟨next, byte, compare, others, _, fits, compared, comparesOthers, rfl⟩ :=
      comparesFields_cons compares
    simp only [List.append_assoc] at laid
    obtain ⟨loads, laid⟩ := (laid_append _ _ _).1 laid
    obtain ⟨laidCompare, laid⟩ := (laid_append _ _ _).1 laid
    obtain ⟨branches, denies, returns, bound, laidOthers⟩ := laid
    obtain ⟨leftInner, rightInner, leftField, rightField, pair⟩ :=
      comparable 0 field left right rfl rfl rfl
    rw [Nat.add_zero, ← toNat_of_fieldByte fits] at leftField rightField
    have near : image.address next < 2 ^ 32 := by
      rw [bound]
      exact Nat.lt_of_le_of_lt (Nat.le_of_lt (inside_of_laid (by
        rw [show answer 1 = emit (.loadInt 1) ++ plain .ret from rfl, ← List.append_assoc]
          at laidOthers
        exact laidOthers))) layout.small
    refine (comes_loadBoth layout.small loads poised room leftStored rightStored leftField
      rightField).trans id fun after poised => ?_
    refine (comes_compareValues layout pair compared laidCompare poised room).trans
      (fun cramped => cramped.mono (shallow left List.mem_cons_self)) fun after poised => ?_
    refine (poised.jumpIf layout.small branches near).trans id fun after poised => ?_
    rw [Datum.equalAll]
    cases same : left.equal right with
    | false =>
      rw [same, if_neg Bool.false_ne_true] at poised
      exact comes_answer layout.small ⟨denies, returns, trivial⟩ poised one
    | true =>
      rw [same, if_pos rfl, bound] at poised
      rw [Bool.true_and]
      refine ih comparesOthers laidOthers (Nat.succ.inj leftLength)
        (Nat.succ.inj rightLength) ?_ (fun left member =>
          shallow left (List.mem_cons_of_mem _ member)) poised
      intro index field left right declared listed otherListed
      obtain ⟨leftInner, rightInner, leftField, rightField, pair⟩ :=
        comparable (index + 1) field left right declared listed otherListed
      rw [show position + (index + 1) = position + 1 + index by omega] at leftField rightField
      exact ⟨leftInner, rightInner, leftField, rightField, pair⟩

/-! ## Unions with member numbers -/

theorem length_le_size {number : Nat} {members : List TypeId} {labels : List Label}
    (selects : SelectsMember scope number members code labels) :
    members.length ≤ Code.size code ∧ labels.length = members.length := by
  induction members generalizing number code labels with
  | nil =>
    obtain ⟨rfl, rfl⟩ := selectsMember_nil selects
    exact ⟨Nat.zero_le _, rfl⟩
  | cons member members ih =>
    obtain ⟨label, others, labels, _, selectsOthers, rfl, rfl⟩ := selectsMember_cons selects
    obtain ⟨few, length⟩ := ih selectsOthers
    rw [Code.size_append, List.length_cons, List.length_cons, length]
    exact ⟨by
      change members.length + 1 ≤ 15 + Code.size others
      omega, rfl⟩

/-- Small numbers are told apart as ints. -/
theorem ofNat_inj {left right : Nat} (leftSmall : left < 2 ^ 32) (rightSmall : right < 2 ^ 32) :
    (Int32.ofNat left == Int32.ofNat right) = (left == right) := by
  by_cases same : left = right
  · rw [same, beq_self_eq_true, beq_self_eq_true]
  · rw [beq_false_of_ne same]
    refine beq_false_of_ne fun equal => same ?_
    have bits : (UInt32.ofNat left).toNat = (UInt32.ofNat right).toNat :=
      congrArg (fun value : Int32 => value.toUInt32.toNat) equal
    rw [UInt32.toNat_ofNat_of_lt' leftSmall, UInt32.toNat_ofNat_of_lt' rightSmall] at bits
    exact bits

theorem comes_selectMember {number index : Nat} {members : List TypeId} {labels : List Label}
    {label : Label} {tag inner : Word} (small : image.assembly.code.size < 2 ^ 32)
    (selects : SelectsMember scope number members code labels) (laid : Laid image place code)
    (few : number + members.length < 2 ^ 32) (found : labels[index]? = some label)
    (near : ∀ label ∈ labels, image.address label < 2 ^ 32)
    (stored : origin.Contains leftWord (.struct #[tag, inner]))
    (numbered : tag.toInt = Int32.ofNat (number + index))
    (poised : session.Poised image bounds origin place rest
      (comparing window returnTo leftWord rightWord)) (room : rest.length + 2 ≤ bounds.operands) :
    session.Comes cramped fun after => after.Poised image bounds origin (image.address label) rest
      (comparing window returnTo leftWord rightWord) := by
  have one : rest.length < bounds.operands := by omega
  induction members generalizing number index code labels place session with
  | nil =>
    obtain ⟨_, rfl⟩ := selectsMember_nil selects
    cases found
  | cons member members ih =>
    obtain ⟨first, others, labels, _, selectsOthers, rfl, rfl⟩ := selectsMember_cons selects
    rw [List.length_cons] at few
    obtain ⟨loads, takes, offers, compares, branches, laidOthers⟩ := laid
    have two : (tag :: rest).length < bounds.operands := by
      rw [List.length_cons]
      omega
    refine (poised.loadConst small loads comparing_left one).trans id fun after poised => ?_
    refine (poised.loadField small takes stored rfl one).trans id fun after poised => ?_
    refine (poised.loadInt small offers two).trans id fun after poised => ?_
    refine (poised.eqInt small compares one).trans id fun after poised => ?_
    have inside : index < labels.length + 1 := by
      have bound := (List.getElem?_eq_some_iff.1 found).1
      rwa [List.length_cons] at bound
    have listed := (length_le_size selectsOthers).2
    change after.Poised image bounds origin _ (.ofBool (tag.toInt ==
      (Word.ofInt (Int32.ofNat number)).toInt) :: rest) _ at poised
    rw [numbered, Word.toInt_ofInt, ofNat_inj (by omega) (by omega)] at poised
    refine (poised.jumpIf small branches (near first List.mem_cons_self)).trans id
      fun after poised => ?_
    cases index with
    | zero =>
      cases found
      rw [Nat.add_zero, beq_self_eq_true, if_pos rfl] at poised
      exact .here poised
    | succ index =>
      rw [beq_false_of_ne (by omega), if_neg Bool.false_ne_true] at poised
      refine ih selectsOthers laidOthers (by omega) found
        (fun label member => near label (List.mem_cons_of_mem _ member)) ?_ poised
      rw [numbered]
      congr 1
      omega

theorem laid_compareMembers {equal label : Label} {member : TypeId} {index : Nat}
    {members : List (TypeId × Label)} (compared : compareMembers program equal members = .ok code)
    (laid : Laid image place code) (found : members[index]? = some (member, label)) :
    ∃ compare, compareValues program member = .ok compare ∧
      Laid image (image.address label)
        (loadBoth 1 ++ compare ++ emit (.jumpIf equal) ++ answer 0) := by
  induction members generalizing index code place with
  | nil => cases found
  | cons first members ih =>
    obtain ⟨firstMember, firstLabel⟩ := first
    obtain ⟨compare, others, comparedFirst, comparedOthers, rfl⟩ := compareMembers_cons compared
    obtain ⟨laidFirst, laidOthers⟩ := (laid_append _ _ _).1 laid
    cases index with
    | zero =>
      cases found
      refine ⟨compare, comparedFirst, ?_⟩
      obtain ⟨bound, laidFirst⟩ := laidFirst
      rw [bound]
      exact laidFirst
    | succ index => exact ih comparedOthers laidOthers found

/-! ## Whole functions -/

theorem body_of_struct {definition : StructDef} {body : Code}
    (compares : EqualityBody program scope type body) (kind : program.kind? type = some .struct)
    (known : program.struct? type = some definition) :
    (definition.fields.getD [] = [] ∧ body = answer 1) ∨
      (∃ field compare, definition.fields.getD [] = [field] ∧
        compareValues program field.type = .ok compare ∧
        body = emit (.loadConst 0) ++ emit (.loadConst 1) ++ compare ++ plain .ret) ∨
      ∃ compare, 2 ≤ (definition.fields.getD []).length ∧
        ComparesFields program scope 0 (definition.fields.getD []) compare ∧
        body = compare ++ answer 1 := by
  cases compares with
  | empty _ _ found none =>
    rw [known] at found
    cases found
    exact Or.inl ⟨none, rfl⟩
  | single _ field compare _ found one compared =>
    rw [known] at found
    cases found
    exact Or.inr (Or.inl ⟨field, compare, one, compared, rfl⟩)
  | wide _ compare _ found many compares =>
    rw [known] at found
    cases found
    exact Or.inr (Or.inr ⟨compare, many, compares, rfl⟩)
  | nullable _ _ _ union => simp [kind] at union
  | tagged _ _ _ _ _ _ union => simp [kind] at union

section

variable {left right : Datum} {compare : Code} {depth : Nat}
variable {nullable : Nullable}

theorem comes_single {field : FieldDecl} (layout : Layout program image)
    (compared : compareValues program field.type = .ok compare) (laid : Laid image place
      (emit (.loadConst 0) ++ emit (.loadConst 1) ++ compare ++ plain .ret))
    (comparable : Comparable program image bounds origin field.type left right leftWord rightWord)
    (poised : session.Poised image bounds origin place rest
      (comparing window returnTo leftWord rightWord)) (room : rest.length + 2 ≤ bounds.operands) :
    session.Comes (Cramped bounds (comparing window returnTo leftWord rightWord) left.depth)
      fun after => after.Poised image bounds origin returnTo.toNat
        (.ofBool (left.equal right) :: rest) window := by
  simp only [List.append_assoc] at laid
  obtain ⟨loadsLeft, loadsRight, rest'⟩ := laid
  have laid : Laid image (place + 2 + 2) (compare ++ plain .ret) := rest'
  obtain ⟨laidCompare, returns, _⟩ := (laid_append _ _ _).1 laid
  have two : (leftWord :: rest).length < bounds.operands := by
    rw [List.length_cons]
    omega
  refine (poised.loadConst layout.small loadsLeft comparing_left (by omega)).trans id
    fun after poised => ?_
  refine (poised.loadConst layout.small loadsRight comparing_right two).trans id
    fun after poised => ?_
  refine (comes_compareValues layout comparable compared laidCompare poised room).trans id
    fun after poised => ?_
  exact poised.ret layout.small returns

/-- A union without member numbers is compared by the null references that stand for its empty
member, or else by the function of its other member. -/
theorem comes_nullable {leftNull rightNull : Label} (layout : Layout program image)
    (laid : Laid image place (emit (.loadConst 0) ++ plain .isNull ++ emit (.jumpIf leftNull) ++
      emit (.loadConst 1) ++ plain .isNull ++ emit (.jumpIf rightNull) ++
      emit (.loadConst 0) ++ emit (.loadConst 1) ++
      callTo (equalityLabel nullable.structType) 2 .tail ++
      bind leftNull ++ emit (.loadConst 1) ++ plain .isNull ++ plain .ret ++
      bind rightNull ++ answer 0)) (poised : session.Poised image bounds origin place rest
      (comparing window returnTo leftWord rightWord)) (room : rest.length + 2 ≤ bounds.operands)
    (both : leftWord.isNull = false → rightWord.isNull = false →
      image.Bound (equalityLabel nullable.structType) → ∀ {session : Session},
        session.Poised image bounds origin (image.address (equalityLabel nullable.structType))
          (rightWord :: leftWord :: rest) (window.called returnTo) →
        session.Comes (Cramped bounds window depth) fun after =>
          after.Poised image bounds origin returnTo.toNat (.ofBool (left.equal right) :: rest)
            window) (either : leftWord.isNull = true ∨ rightWord.isNull = true →
      left.equal right = (leftWord.isNull && rightWord.isNull)) :
    session.Comes (Cramped bounds window depth) fun after =>
      after.Poised image bounds origin returnTo.toNat (.ofBool (left.equal right) :: rest)
        window := by
  have small := layout.small
  have one : rest.length < bounds.operands := by omega
  have two : (leftWord :: rest).length < bounds.operands := by
    rw [List.length_cons]
    omega
  simp only [emit, plain, Lowering.bind, callTo, answer, List.cons_append,
    List.nil_append, Laid] at laid
  obtain ⟨loadsLeft, testsLeft, branchesLeft, loadsRight, testsRight, branchesRight, passesLeft,
    passesRight, calls, leftBound, reloads, retests, returns, rightBound, denies, leaves, _⟩ := laid
  have leftNear : image.address leftNull < 2 ^ 32 := by
    rw [leftBound]
    exact Nat.lt_of_le_of_lt (Nat.le_trans (Nat.le_add_right _ _) reloads.inside) small
  have rightNear : image.address rightNull < 2 ^ 32 := by
    rw [rightBound]
    exact Nat.lt_of_le_of_lt (Nat.le_trans (Nat.le_add_right _ _) denies.inside) small
  refine (poised.loadConst small loadsLeft comparing_left one).trans id fun after poised => ?_
  refine (poised.isNull small testsLeft one).trans id fun after poised => ?_
  refine (poised.jumpIf small branchesLeft leftNear).trans id fun after poised => ?_
  cases leftIsNull : leftWord.isNull with
  | true =>
    rw [leftIsNull, if_pos rfl, leftBound] at poised
    rw [either (Or.inl leftIsNull), leftIsNull, Bool.true_and]
    refine (poised.loadConst small reloads comparing_right one).trans id fun after poised => ?_
    refine (poised.isNull small retests one).trans id fun after poised => ?_
    exact poised.ret small returns
  | false =>
    rw [leftIsNull, if_neg Bool.false_ne_true] at poised
    refine (poised.loadConst small loadsRight comparing_right one).trans id fun after poised => ?_
    refine (poised.isNull small testsRight one).trans id fun after poised => ?_
    refine (poised.jumpIf small branchesRight rightNear).trans id fun after poised => ?_
    cases rightIsNull : rightWord.isNull with
    | true =>
      rw [rightIsNull, if_pos rfl, rightBound] at poised
      rw [either (Or.inr rightIsNull), leftIsNull, Bool.false_and]
      exact comes_answer small ⟨denies, leaves, trivial⟩ poised one
    | false =>
      rw [rightIsNull, if_neg Bool.false_ne_true] at poised
      have bound := calls.bound _ rfl
      refine (poised.loadConst small passesLeft comparing_left one).trans id
        fun after poised => ?_
      refine (poised.loadConst small passesRight comparing_right two).trans id
        fun after poised => ?_
      refine (poised.tailCall small calls (near_of_bound layout bound)).trans id
        fun after poised => ?_
      apply both leftIsNull rightIsNull bound
      have released : ({ comparing window returnTo leftWord rightWord with
          constants := (comparing window returnTo leftWord rightWord).constants.take
            (comparing window returnTo leftWord rightWord).base } : Window) =
          window.called returnTo := by
        simp [comparing, Window.called]
      rw [released] at poised
      exact poised

theorem comes_tagged {members : List TypeId} {member : TypeId} {sameMember equal : Label}
    {select : Code} {labels : List Label} {leftNumber rightNumber : Nat}
    {leftTag leftInner rightTag rightInner : Word} (layout : Layout program image)
    (laid : Laid image place (loadBoth 0 ++ plain .eqInt ++ emit (.jumpIf sameMember) ++ answer 0 ++
      bind sameMember ++ select ++ plain .fail ++ compare ++ bind equal ++ answer 1))
    (selects : SelectsMember scope 0 members select labels)
    (compared : compareMembers program equal (members.zip labels) = .ok compare)
    (leftStored : origin.Contains leftWord (.struct #[leftTag, leftInner]))
    (rightStored : origin.Contains rightWord (.struct #[rightTag, rightInner]))
    (leftNumbered : leftTag.toInt = Int32.ofNat leftNumber)
    (rightNumbered : rightTag.toInt = Int32.ofNat rightNumber)
    (listed : members[leftNumber]? = some member) (bounded : rightNumber < members.length)
    (comparable : leftNumber = rightNumber →
      Comparable program image bounds origin member left right leftInner rightInner)
    (poised : session.Poised image bounds origin place rest
      (comparing window returnTo leftWord rightWord)) (room : rest.length + 2 ≤ bounds.operands) :
    session.Comes (Cramped bounds (comparing window returnTo leftWord rightWord) left.depth)
      fun after => after.Poised image bounds origin returnTo.toNat
        (.ofBool (leftNumber == rightNumber && left.equal right) :: rest) window := by
  have small := layout.small
  have one : rest.length < bounds.operands := by omega
  obtain ⟨few, length⟩ := length_le_size selects
  have leftBounded := (List.getElem?_eq_some_iff.1 listed).1
  -- The code is taken apart at the pieces whose length is not fixed.
  simp only [List.append_assoc] at laid
  obtain ⟨loads, laid⟩ := (laid_append _ _ _).1 laid
  obtain ⟨compares, branches, denies, leaves, sameBound, laid⟩ := laid
  have split : Laid image (place + Code.size (loadBoth 0) + 1 + 5 + 5 + 1)
      (select ++ (plain .fail ++ (compare ++ (bind equal ++ answer 1)))) := laid
  obtain ⟨laidSelect, laid⟩ := (laid_append _ _ _).1 split
  obtain ⟨fails, laid⟩ := (laid_append _ _ _).1 laid
  obtain ⟨laidCompare, equalBound, affirms, agrees, _⟩ := (laid_append _ _ _).1 laid
  have sameNear : image.address sameMember < 2 ^ 32 := by
    rw [sameBound]
    exact Nat.lt_of_le_of_lt (Nat.le_trans (Nat.le_add_right _ _)
      (Nat.le_trans (Nat.le_add_right _ _) fails.1.inside)) small
  have equalNear : image.address equal < 2 ^ 32 := by
    rw [equalBound]
    exact Nat.lt_of_le_of_lt (Nat.le_trans (Nat.le_add_right _ _) affirms.inside) small
  have total : members.length < 2 ^ 32 := by
    have inside := fails.1.inside
    omega
  have placed : ∀ {index : Nat} {label : Label}, labels[index]? = some label →
      ∃ member compare, members[index]? = some member ∧
        compareValues program member = .ok compare ∧
        Laid image (image.address label)
          (loadBoth 1 ++ compare ++ emit (.jumpIf equal) ++ answer 0) := by
    intro index label found
    have bound := (List.getElem?_eq_some_iff.1 found).1
    obtain ⟨member, known⟩ : ∃ member, members[index]? = some member :=
      ⟨_, List.getElem?_eq_getElem (length ▸ bound)⟩
    obtain ⟨compare, compared, laid⟩ := laid_compareMembers compared laidCompare
      (List.getElem?_zip_eq_some.2 ⟨known, found⟩)
    exact ⟨member, compare, known, compared, laid⟩
  have labelsNear : ∀ label ∈ labels, image.address label < 2 ^ 32 := by
    intro label member
    obtain ⟨index, found⟩ := List.mem_iff_getElem?.1 member
    obtain ⟨_, _, _, _, laid⟩ := placed found
    simp only [List.append_assoc] at laid
    exact Nat.lt_of_le_of_lt (Nat.le_trans (Nat.le_add_right _ _) laid.1.inside) small
  refine (comes_loadBoth small loads poised room leftStored rightStored rfl rfl).trans id
    fun after poised => ?_
  refine (poised.eqInt small compares one).trans id fun after poised => ?_
  change after.Poised image bounds origin _ (.ofBool (leftTag.toInt == rightTag.toInt) :: rest) _
    at poised
  rw [leftNumbered, rightNumbered, ofNat_inj (by omega) (by omega)] at poised
  refine (poised.jumpIf small branches sameNear).trans id fun after poised => ?_
  cases same : leftNumber == rightNumber with
  | false =>
    rw [same, if_neg Bool.false_ne_true] at poised
    exact comes_answer small ⟨denies, leaves, trivial⟩ poised one
  | true =>
    rw [same, if_pos rfl, sameBound] at poised
    obtain ⟨label, found⟩ : ∃ label, labels[leftNumber]? = some label :=
      ⟨_, List.getElem?_eq_getElem (length.symm ▸ leftBounded)⟩
    obtain ⟨other, compareMember, known, comparedMember, laidMember⟩ := placed found
    rw [listed] at known
    cases known
    simp only [List.append_assoc] at laidMember
    obtain ⟨takes, laidMember⟩ := (laid_append _ _ _).1 laidMember
    obtain ⟨laidValues, decides, refuses, returns, _⟩ := (laid_append _ _ _).1 laidMember
    refine (comes_selectMember small selects laidSelect (by omega) found labelsNear leftStored
      (by rw [leftNumbered, Nat.zero_add]) poised room).trans id fun after poised => ?_
    refine (comes_loadBoth small takes poised room leftStored rightStored rfl rfl).trans id
      fun after poised => ?_
    refine (comes_compareValues layout (comparable (beq_iff_eq.1 same)) comparedMember laidValues
      poised room).trans id fun after poised => ?_
    refine (poised.jumpIf small decides equalNear).trans id fun after poised => ?_
    rw [Bool.true_and]
    cases agreed : left.equal right with
    | false =>
      rw [agreed, if_neg Bool.false_ne_true] at poised
      exact comes_answer small ⟨refuses, returns, trivial⟩ poised one
    | true =>
      rw [agreed, if_pos rfl, equalBound] at poised
      exact comes_answer small ⟨affirms, agrees, trivial⟩ poised one

theorem body_of_nullable {body : Code} (compares : EqualityBody program scope type body)
    (kind : program.kind? type = some .union) (form : nullable? program type = some nullable) :
    ∃ leftNull rightNull, body = emit (.loadConst 0) ++ plain .isNull ++ emit (.jumpIf leftNull) ++
      emit (.loadConst 1) ++ plain .isNull ++ emit (.jumpIf rightNull) ++
      emit (.loadConst 0) ++ emit (.loadConst 1) ++
      callTo (equalityLabel nullable.structType) 2 .tail ++
      bind leftNull ++ emit (.loadConst 1) ++ plain .isNull ++ plain .ret ++
      bind rightNull ++ answer 0 := by
  cases compares with
  | empty _ struct => simp [kind] at struct
  | single _ _ _ struct => simp [kind] at struct
  | wide _ _ struct => simp [kind] at struct
  | nullable _ leftNull rightNull _ same =>
    rw [form] at same
    cases same
    exact ⟨leftNull, rightNull, rfl⟩
  | tagged _ _ _ _ _ _ _ none => simp [form] at none

theorem body_of_tagged {definition : UnionDef} {body : Code}
    (compares : EqualityBody program scope type body) (kind : program.kind? type = some .union)
    (form : nullable? program type = none) (known : program.union? type = some definition) :
    ∃ sameMember equal select compare labels,
      SelectsMember scope 0 (definition.members.getD []) select labels ∧
      compareMembers program equal ((definition.members.getD []).zip labels) = .ok compare ∧
      body = loadBoth 0 ++ plain .eqInt ++ emit (.jumpIf sameMember) ++ answer 0 ++
        bind sameMember ++ select ++ plain .fail ++ compare ++ bind equal ++ answer 1 := by
  cases compares with
  | empty _ struct => simp [kind] at struct
  | single _ _ _ struct => simp [kind] at struct
  | wide _ _ struct => simp [kind] at struct
  | nullable _ _ _ _ same => simp [form] at same
  | tagged _ sameMember equal select compare labels _ _ found _ _ selects compared =>
    rw [known] at found
    cases found
    exact ⟨sameMember, equal, select, compare, labels, ⟨_, _, selects⟩, compared, rfl⟩

theorem decides_nullable (layout : Layout program image)
    (represents : Represents program origin type left leftWord)
    (kind : program.kind? type = some .union) (form : nullable? program type = some nullable)
    (struct : ∀ number fields, left = .union number (.struct fields) →
      Represents program origin nullable.structType (.struct fields) leftWord →
      Decides program image bounds origin nullable.structType (.struct fields) leftWord) :
    Decides program image bounds origin type left leftWord := by
  intro right rightWord rest window returnTo session bound rightStands room poised
  obtain ⟨definition, number, member, fields, known, listed, rfl, leftForm⟩ :=
    represents.of_nullable kind form
  obtain ⟨same, rightNumber, rightMember, rightFields, found, rightListed, rfl, rightForm⟩ :=
    rightStands.of_nullable kind form
  rw [known] at found
  cases found
  obtain ⟨_, wide, apart⟩ := nullable_listed form known
  have numbers := number_eq_of_nullable form known listed rightListed
  obtain ⟨body, place, compares, laid, enters⟩ := comes_body layout bound
  refine (enters poised).trans id fun after poised => ?_
  obtain ⟨leftNull, rightNull, rfl⟩ := body_of_nullable compares kind form
  refine comes_nullable layout laid poised room ?_ ?_
  · intro leftPresent rightPresent boundStruct session poised
    rcases leftForm with ⟨_, _, rfl⟩ | ⟨rfl, leftStruct⟩
    · cases leftPresent
    rcases rightForm with ⟨_, _, rfl⟩ | ⟨rfl, rightStruct⟩
    · cases rightPresent
    have equal : (Datum.union number (.struct fields)).equal
        (.union rightNumber (.struct rightFields)) =
          (Datum.struct fields).equal (.struct rightFields) := by
      simp only [Datum.equal, numbers.2 rfl, beq_self_eq_true, Bool.true_and]
    rw [equal]
    refine (struct number fields rfl leftStruct boundStruct rightStruct room poised).trans
      (fun cramped => cramped.mono ?_) fun after => .here
    exact Nat.le_succ _
  · intro either
    rw [Datum.equal]
    rcases leftForm with ⟨rfl, rfl, rfl⟩ | ⟨rfl, leftStruct⟩
    · rw [Word.isNull_null, Bool.true_and]
      rcases rightForm with ⟨rfl, rfl, rfl⟩ | ⟨rfl, rightStruct⟩
      · rw [beq_iff_eq.2 (numbers.2 rfl), Word.isNull_null]
        rfl
      · rw [beq_false_of_ne fun equal => apart (numbers.1 equal), rightStruct.isNull_eq wide,
          Bool.false_and]
    · rw [leftStruct.isNull_eq wide, Bool.false_and]
      rcases rightForm with ⟨rfl, rfl, rfl⟩ | ⟨rfl, rightStruct⟩
      · rw [beq_false_of_ne fun equal => apart (numbers.1 equal).symm, Bool.false_and]
      · rw [leftStruct.isNull_eq wide, rightStruct.isNull_eq wide] at either
        simp at either

theorem decides (layout : Layout program image)
    (represents : Represents program origin type left leftWord)
    (user : isUserType program type = true) :
    Decides program image bounds origin type left leftWord := by
  induction represents with
  | int kind number => rcases number with rfl | rfl | rfl | rfl <;> simp [isUserType, kind] at user
  | long kind _ => simp [isUserType, kind] at user
  | float kind => simp [isUserType, kind] at user
  | text kind _ => simp [isUserType, kind] at user
  | empty word kind known none =>
    intro right rightWord rest window returnTo session bound represents room poised
    obtain ⟨body, place, compares, laid, enters⟩ := comes_body layout bound
    refine (enters poised).trans id fun after poised => ?_
    have rightEmpty := represents.of_empty kind known none
    subst rightEmpty
    rcases body_of_struct compares kind known with
      ⟨_, rfl⟩ | ⟨_, _, one, _, _⟩ | ⟨_, many, _, _⟩
    · exact comes_answer layout.small laid poised (by omega)
    · simp [none] at one
    · simp [none] at many
  | @single type definition field value word kind known one inner ih =>
    intro right rightWord rest window returnTo session bound represents room poised
    obtain ⟨body, place, compares, laid, enters⟩ := comes_body layout bound
    refine (enters poised).trans id fun after poised => ?_
    obtain ⟨rightInner, rfl, rightStands⟩ := represents.of_single kind known one
    rcases body_of_struct compares kind known with
      ⟨none, _⟩ | ⟨other, compare, same, compared, rfl⟩ | ⟨_, many, _, _⟩
    · simp [one] at none
    · rw [one] at same
      cases same
      have pair : Comparable program image bounds origin field.type value rightInner word
          rightWord := ⟨inner, rightStands, ih⟩
      have comes := comes_single layout compared laid pair poised room
      have equal : (Datum.struct [value]).equal (.struct [rightInner]) =
          value.equal rightInner := by
        simp [Datum.equal, Datum.equalAll]
      rw [equal]
      refine comes.trans (fun cramped => cramped.of_comparing.mono ?_) fun after => .here
      simp [Datum.depth, Datum.depthAll]
    · simp [one] at many
  | @wide type definition values word words kind known many stored length size each
      ih =>
      intro right rightWord rest window returnTo session bound represents room poised
      obtain ⟨body, place, compares, laid, enters⟩ := comes_body layout bound
      refine (enters poised).trans id fun after poised => ?_
      obtain ⟨rights, rightWords, rfl, rightStored, rightStands⟩ :=
        represents.of_wide kind known many
      rcases body_of_struct compares kind known with
        ⟨none, _⟩ | ⟨_, _, one, _, _⟩ | ⟨compare, _, comparesFields, rfl⟩
      · simp [none] at many
      · simp [one] at many
      · refine (comes_compareFields layout comparesFields laid stored rightStored length
          rightStands.length ?_ (fun _ => Datum.depth_le_depthAll) poised room).trans
            Cramped.of_comparing fun after => .here
        intro index field left right declared listed otherListed
        have inside := (List.getElem?_eq_some_iff.1 declared).1
        obtain ⟨leftInner, leftFound⟩ : ∃ inner, words[index]? = some inner :=
          ⟨_, Array.getElem?_eq_getElem (size ▸ inside)⟩
        obtain ⟨rightInner, rightFound⟩ : ∃ inner, rightWords[index]? = some inner :=
          ⟨_, Array.getElem?_eq_getElem (rightStands.size ▸ inside)⟩
        refine ⟨leftInner, rightInner, by rwa [Nat.zero_add], by rwa [Nat.zero_add], ?_⟩
        exact ⟨each index field left leftInner declared listed leftFound,
          rightStands.each index field right rightInner declared otherListed rightFound,
          ih index field left leftInner declared listed leftFound⟩
  | null kind form known listed =>
    refine decides_nullable layout (.null kind form known listed) kind form ?_
    intro number fields _ struct
    have none := struct.isNull_eq (nullable_listed form known).2.1
    cases none
  | present kind form known listed inner ih =>
    refine decides_nullable layout (.present kind form known listed inner) kind form ?_
    intro number fields same _
    cases same
    apply ih
    obtain ⟨structKind, structKnown, isStruct⟩ := inner.hasKind
    simp [isUserType, structKnown, show structKind = .struct from isStruct]
  | @tagged type member definition number value word tag innerWord kind form known listed stored
      numbered inner ih =>
      intro right rightWord rest window returnTo session bound represents room poised
      obtain ⟨body, place, compares, laid, enters⟩ := comes_body layout bound
      refine (enters poised).trans id fun after poised => ?_
      obtain ⟨rightNumber, rightMember, rightValue, rightTag, rightInner, rfl, rightListed,
        rightStored, rightNumbered, rightStands⟩ := represents.of_tagged kind form known
      obtain ⟨sameMember, equal, select, compare, labels, selects, compared, rfl⟩ :=
        body_of_tagged compares kind form known
      refine (comes_tagged layout laid selects compared stored rightStored numbered rightNumbered
        listed (List.getElem?_eq_some_iff.1 rightListed).1 ?_ poised room).trans
          Cramped.of_comparing fun after => .here
      rintro rfl
      rw [listed] at rightListed
      cases rightListed
      exact ⟨inner, rightStands, ih⟩

end

end

/-! ## Calls -/

/-- Where the equality function of a type starts in the assembly of a program. -/
def entry (program : Program) (type : TypeId) : UInt32 :=
  match joined program with
  | .ok whole => UInt32.ofNat (whole.address (equalityLabel type))
  | .error _ => 0

/-- Whether a session is about to call a function, and to come back. -/
structure IsCalling (target : UInt32) (arguments : UInt8) (session : Session) : Prop where
  free : session.Free
  sound : session.shared.heap.Sound
  fits : session.executor.eval.items.size ≤ session.executor.eval.capacity
  fetched : Exec.fetch? session.shared.assembly.code session.executor.ip.toNat =
    some (.call, Opcode.call.size)
  target : session.shared.assembly.code.u32At (session.executor.ip.toNat + 1) = target
  arguments : session.shared.assembly.code.byteAt (session.executor.ip.toNat + 5) = arguments
  mode : session.shared.assembly.code.byteAt (session.executor.ip.toNat + 6) =
    CallMode.normal.code

/-- Whether a call has come back with a result: it stands in place of the arguments, and there is
nothing else new on the stacks. -/
structure HasReturned (before : Executor) (rest : Array Word) (result : Word) (after : Session) :
    Prop where
  free : after.Free
  ip : after.executor.ip.toNat = before.ip.toNat + Opcode.call.size
  eval : after.executor.eval = ⟨before.eval.capacity, rest.push result⟩
  consts : after.executor.consts = before.consts
  calls : after.executor.calls = before.calls

/-- Whether the stacks have room for a number of nested calls that take two constants each. -/
def HasRoom (executor : Executor) (depth : Nat) : Prop :=
  executor.consts.slots.size + 2 * depth ≤ executor.consts.capacity ∧
    executor.calls.frames.size + depth ≤ executor.calls.limit

section

variable {program : Program} {type : TypeId} {session : Session} {left right : Datum}
variable {leftWord rightWord : Word} {rest : Array Word}

/-- A collection that is due comes before the call and changes nothing about it. -/
theorem comes_collected {arguments : UInt8} {target : UInt32} {goal : Session → Prop}
    {cramped : Prop} (calling : IsCalling target arguments session)
    (stacked : session.executor.eval.items = (rest.push leftWord).push rightWord)
    (leftStands : Represents program session.shared.heap type left leftWord)
    (rightStands : Represents program session.shared.heap type right rightWord)
    (goes : ∀ later : Session, IsCalling target arguments later →
      later.executor = session.executor → later.shared.assembly = session.shared.assembly →
      later.shared.heap.requested = false →
      Represents program later.shared.heap type left leftWord →
      Represents program later.shared.heap type right rightWord →
      later.Comes cramped goal) : session.Comes cramped goal := by
  cases asked : session.shared.heap.requested with
  | false => exact goes session calling rfl rfl asked leftStands rightStands
  | true =>
    have moved : session.next = session.collected := by simp [Session.next, asked]
    refine .next calling.free ?_
    rw [moved]
    obtain ⟨assembly, aborting⟩ := session.collected_keeps
    have executor := session.collected_executor
    have heap : session.collected.shared.heap =
        ({ session.shared.heap with requested := false }.collect session.executor.roots).1 :=
      Shared.collect_heap _ _
    have root : ∀ {word : Word}, word ∈ session.executor.eval.items →
        word ∈ session.executor.roots := by
      intro word member
      simp [Executor.roots, member]
    have leftRoot : leftWord ∈ session.executor.roots := root (by simp [stacked])
    have rightRoot : rightWord ∈ session.executor.roots := root (by simp [stacked])
    refine goes session.collected ?_ executor assembly
      (Session.collected_requested calling.sound) ?_ ?_
    · have sound : session.collected.shared.heap.Sound := by
        rw [heap]
        exact (calling.sound.pace session.shared.heap.left false).collect session.executor.roots
      refine ⟨⟨?_, ?_, aborting.trans calling.free.aborting⟩, sound, ?_, ?_, ?_, ?_, ?_⟩ <;>
        simp only [executor, assembly]
      · exact calling.free.running
      · exact calling.free.wait
      · exact calling.fits
      · exact calling.fetched
      · exact calling.target
      · exact calling.arguments
      · exact calling.mode
    · rw [heap]
      exact leftStands.collected calling.sound leftRoot
    · rw [heap]
      exact rightStands.collected calling.sound rightRoot

/-- A call of a generated equality function, on words for two values of its type, comes back with
whether the values are equal, unless there is no room for as many nested calls as the values are
deep. -/
theorem equality_calls_decide {assembly : Assembly} {types : List TypeId}
    (generated : generate program = .ok assembly) (small : assembly.code.size < 2 ^ 32)
    (listed : equalityTypes program = .ok types) (member : type ∈ types)
    (loaded : session.shared.assembly = assembly)
    (calling : IsCalling (entry program type) 2 session)
    (stacked : session.executor.eval.items = (rest.push leftWord).push rightWord)
    (leftStands : Represents program session.shared.heap type left leftWord)
    (rightStands : Represents program session.shared.heap type right rightWord) :
    session.Comes (¬HasRoom session.executor left.depth)
      (HasReturned session.executor rest (.ofBool (left.equal right))) := by
  obtain ⟨whole, found, closed⟩ := generate_eq_ok.1 generated
  obtain ⟨image, sameAssembly, address, layout, bound⟩ :=
    layout_of_joined found closed small
  have bound := bound listed type member
  have target : entry program type = UInt32.ofNat (image.address (equalityLabel type)) := by
    unfold entry
    rw [found, address]
  have user : isUserType program type = true := by
    obtain ⟨start, code, unitCode, _⟩ := layout.equality type bound
    cases unitCode with
    | equality _ body compares => cases compares <;> simp_all [isUserType]
  refine comes_collected calling stacked leftStands rightStands ?_
  intro later calling executor code unasked leftStands rightStands
  rw [← executor] at stacked ⊢
  have here : (Instruction.call (equalityLabel type) 2 CallMode.normal.code).At image
      later.executor.ip.toNat := by
    have same : image.assembly = later.shared.assembly := by rw [sameAssembly, code, loaded]
    refine ⟨?_, ⟨?_, ?_, ?_⟩, ?_⟩ <;> try rw [same]
    · exact calling.fetched
    · exact calling.target.trans target
    · exact calling.arguments
    · exact calling.mode
    · rintro label ⟨⟩
      exact bound
  let bounds : Bounds :=
    ⟨later.executor.eval.capacity, later.executor.consts.capacity, later.executor.calls.limit⟩
  let window : Window :=
    ⟨later.executor.consts.base, later.executor.consts.slots.toList, later.executor.calls.frames⟩
  have poised : later.Poised image bounds later.shared.heap later.executor.ip.toNat
      (rightWord :: leftWord :: rest.toList.reverse) window :=
    { assembly := by rw [code, loaded, sameAssembly]
      free := calling.free
      unasked := unasked
      kept := .refl _
      ip := rfl
      eval := by
        have items : (rightWord :: leftWord :: rest.toList.reverse).reverse.toArray =
            later.executor.eval.items := by
          apply Array.toList_inj.1
          simp [stacked]
        rw [items]
      consts := rfl
      calls := rfl }
  have few : ∀ {depth : Nat}, Cramped bounds window depth → ¬HasRoom later.executor depth := by
    rintro depth cramped ⟨constants, frames⟩
    unfold Cramped at cramped
    simp only [bounds, window, Array.length_toList] at cramped
    omega
  have room : rest.toList.reverse.length + 2 ≤ bounds.operands := by
    have fits := calling.fits
    rw [stacked, Array.size_push, Array.size_push] at fits
    rw [List.length_reverse, Array.length_toList]
    exact fits
  have deep : 0 < left.depth := by
    obtain ⟨kind, known, isKind⟩ := leftStands.hasKind
    cases left with
    | struct fields => exact Nat.succ_pos _
    | union number value => exact Nat.succ_pos _
    | int _ => rcases isKind with rfl | rfl | rfl | rfl <;> simp [isUserType, known] at user
    | _ => cases isKind; simp [isUserType, known] at user
  refine (poised.call layout.small here (near_of_bound layout bound) fun full => ?_).trans few
    fun after poised => ?_
  · right
    omega
  refine (decides layout leftStands user bound rightStands room poised).trans few
    fun after poised => .here ?_
  have inside : later.executor.ip.toNat + 7 ≤ image.assembly.code.size := here.inside
  exact
    { free := poised.free
      ip := by
        rw [poised.ip, UInt32.toNat_ofNat_of_lt' (Nat.lt_of_le_of_lt inside layout.small)]
        rfl
      eval := by
        have items : (Word.ofBool (left.equal right) :: rest.toList.reverse).reverse.toArray =
            rest.push (.ofBool (left.equal right)) := by
          apply Array.toList_inj.1
          simp
        rw [poised.eval, items]
      consts := poised.consts
      calls := poised.calls }

end

/-! ## Boxes -/

/-- Boxes of an int, and a statement that compares its constant with itself. -/
def boxes : Program where
  types := #[{ id := 0, kind := TypeKind.int.code }, { id := 1, kind := TypeKind.struct.code }]
  structs := [{ id := 1, fields := some [{ type := 0 }] }]
  funcs := #[{ kind := 93, input := some [1, 1] }]
  statements := #[⟨[{}], .call 0 [.slot 0 1, .slot 0 1] 0 0⟩]

def boxEquality : Bytes :=
  ⟨#[Opcode.reserveConsts.code, 2, Opcode.storeConst.code, 1, Opcode.storeConst.code, 0,
    Opcode.loadConst.code, 0, Opcode.loadConst.code, 1, Opcode.eqInt.code, Opcode.ret.code,
    Opcode.fail.code]⟩

def boxStatement : Bytes :=
  ⟨#[Opcode.reserveConsts.code, 1, Opcode.loadConst.code, 0, Opcode.loadConst.code, 0,
    Opcode.call.code, 0, 0, 0, 0, 2, CallMode.normal.code, Opcode.pop.code, Opcode.ret.code,
    Opcode.fail.code]⟩

theorem equalityTypes_boxes : equalityTypes boxes = .ok [1] := by decide +kernel

theorem joined_boxes : joined boxes = .ok {
    code := boxEquality ++ boxStatement
    labels := ((∅ : Std.HashMap Label Nat).insert (equalityLabel 1) 0).insert (statementLabel 0) 13
    labelUses := #[(20, equalityLabel 1)]
    entries := #[statementLabel 0] } := by
  have equality : (CodeUnit.equality 1).fragment boxes = .ok {
      scope := equalityLabel 1, code := boxEquality
      labels := (∅ : Std.HashMap Label Nat).insert (equalityLabel 1) 0 } := by
    have bound : (Fragment.empty (equalityLabel 1)).apply (.bind (equalityLabel 1)) = _ :=
      Fragment.bindAt_of_not_mem (by simp [Fragment.empty]) 0
    have code : (CodeUnit.equality 1).fragment boxes =
        .ok (List.foldl Fragment.apply (Fragment.empty (equalityLabel 1))
          [.bind (equalityLabel 1), .emit (.reserveConsts 2), .emit (.storeConst 1),
            .emit (.storeConst 0), .emit (.loadConst 0), .emit (.loadConst 1),
            .emit (.plain .eqInt), .emit (.plain .ret), .emit (.plain .fail)]) := rfl
    rw [code, List.foldl_cons, bound]
    rfl
  have statement :
      (CodeUnit.statement 0 ⟨[{}], .call 0 [.slot 0 1, .slot 0 1] 0 0⟩).fragment boxes =
      .ok {
        scope := statementLabel 0, code := boxStatement
        labels := (∅ : Std.HashMap Label Nat).insert (statementLabel 0) 0
        labelUses := #[(7, equalityLabel 1)]
        entries := #[statementLabel 0] } := by
    have bound : (Fragment.empty (statementLabel 0)).apply (.bind (statementLabel 0)) = _ :=
      Fragment.bindAt_of_not_mem (by simp [Fragment.empty]) 0
    have code : (CodeUnit.statement 0 ⟨[{}], .call 0 [.slot 0 1, .slot 0 1] 0 0⟩).fragment boxes =
        .ok (List.foldl Fragment.apply (Fragment.empty (statementLabel 0))
          [.bind (statementLabel 0), .entry (statementLabel 0), .emit (.reserveConsts 1),
            .emit (.loadConst 0), .emit (.loadConst 0),
            .emit (.call (equalityLabel 1) 2 CallMode.normal.code), .emit (.plain .pop),
            .emit (.plain .ret), .emit (.plain .fail)]) := rfl
    rw [code, List.foldl_cons, bound]
    rfl
  have listed : units boxes = .ok [.equality 1,
      .statement 0 ⟨[{}], .call 0 [.slot 0 1, .slot 0 1] 0 0⟩] := by
    unfold units
    rw [equalityTypes_boxes]
    rfl
  unfold joined
  rw [listed]
  simp only [fragments, equality, statement]
  change Except.ok (Fragment.append (Fragment.append _ _) _) = _
  have first : (Fragment.empty ByteArray.empty).append {
      scope := equalityLabel 1, code := boxEquality
      labels := (∅ : Std.HashMap Label Nat).insert (equalityLabel 1) 0 } = _ :=
    Fragment.append_single rfl rfl rfl (by simp [Fragment.empty])
  rw [first, Fragment.append_single rfl rfl rfl (by
    have apart : equalityLabel 1 ≠ statementLabel 0 := by decide
    simp [Fragment.empty, apart])]
  have size : boxEquality.size = 13 := rfl
  simp [Fragment.empty, size]

def boxCode : Bytes :=
  boxEquality ++ boxStatement

theorem close_boxes :
    ({ code := boxEquality ++ boxStatement
       labels := ((∅ : Std.HashMap Label Nat).insert (equalityLabel 1) 0).insert
         (statementLabel 0) 13
       labelUses := #[(20, equalityLabel 1)]
       entries := #[statementLabel 0] } : Fragment).close =
      .ok { code := boxCode, literals := #[], entries := #[13] } := by
  have apart : statementLabel 0 ≠ equalityLabel 1 := by decide
  have written : Bytes.setU32 (boxEquality ++ boxStatement) 20 0 = boxCode := by
    decide
  simp [Fragment.close, Fragment.resolveUse, Fragment.resolveEntry, Std.HashMap.getElem_insert,
    apart, written]
  rfl

theorem entry_boxes : entry boxes 1 = 0 := by
  have apart : statementLabel 0 ≠ equalityLabel 1 := by decide
  unfold entry
  rw [joined_boxes]
  simp [Fragment.address, Std.HashMap.getD_insert, apart]

/-- A machine that is about to compare a box of three with a box of four. -/
def boxSession : Session :=
  let machine := Machine.new { code := boxCode, literals := #[], entries := #[13] }
    { evalStack := 2, constStack := 2, callStack := 1 } default .off
  { executor :=
      { Executor.start machine.shared.settings 19 with
        eval := { capacity := 2, items := #[.ofInt 3, .ofInt 4] } }
    shared := machine.shared }

theorem equality_calls_decide_boxes :
    ∃ count after, Session.Moves count boxSession after ∧
      HasReturned boxSession.executor #[] (.ofBool false) after := by
  have generated : generate boxes = .ok { code := boxCode, literals := #[], entries := #[13] } :=
    generate_eq_ok.2 ⟨_, joined_boxes, close_boxes⟩
  have stands : ∀ word,
      Represents boxes boxSession.shared.heap 1 (.struct [.int word.toInt]) word :=
    fun word => .single rfl rfl rfl (.int rfl (Or.inl rfl))
  have calling : IsCalling (entry boxes 1) 2 boxSession := by
    rw [entry_boxes]
    exact ⟨⟨rfl, rfl, rfl⟩, Heap.Sound.new _ _, Nat.le_refl 2, rfl, rfl, rfl, rfl⟩
  obtain ⟨count, after, moves, returned | ⟨cramped, _⟩⟩ :=
    equality_calls_decide generated (by decide) equalityTypes_boxes (by decide) rfl calling
      (show boxSession.executor.eval.items = (#[].push (.ofInt 3)).push (.ofInt 4) from rfl)
      (stands _) (stands _)
  · have unequal : (Datum.struct [.int (Word.ofInt 3).toInt]).equal
        (.struct [.int (Word.ofInt 4).toInt]) = false := by decide
    rw [unequal] at returned
    exact ⟨count, after, moves, returned⟩
  · exact absurd ⟨by decide, by decide⟩ cramped

end WordMachine.Equality
