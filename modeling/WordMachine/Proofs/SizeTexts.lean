import WordMachine.Config.Quantity
import WordMachine.Proofs.WhiteSpace

/-!
Which texts are sizes. A size is a count with an optional sign, then possibly a unit, with white
space around and between them; reading it gives the product of the count and the unit, unless that
is negative or too large, and everything else is refused.
-/

namespace WordMachine

/-! ## Endings -/

namespace Bytes

theorem endsWith_iff {text ending : Bytes} :
    endsWith text ending = true ↔ toList ending <:+ toList text := by
  unfold endsWith
  rw [Bool.and_eq_true, decide_eq_true_eq, beq_iff_eq]
  constructor
  · rintro ⟨_, same⟩
    rw [← same, toList_drop]
    exact List.drop_suffix _ _
  · rintro ⟨front, split⟩
    have sizes := congrArg List.length split
    rw [List.length_append, length_toList, length_toList] at sizes
    refine ⟨by omega, toList_injective ?_⟩
    rw [toList_drop, ← split, show text.size - ending.size = front.length by omega, List.drop_left]

theorem toList_take_ending {text : Bytes} {front ending : List UInt8}
    (split : toList text = front ++ ending) :
    toList (take text (text.size - ending.length)) = front := by
  have sizes := congrArg List.length split
  rw [List.length_append, length_toList] at sizes
  rw [toList_take, split, show text.size - ending.length = front.length by omega, List.take_left]

end Bytes

namespace Size

open Bytes (ofList toList)
open Text (IsWhiteSpace IsPlain isSpace encoded)

variable {factor : Nat} {number : Int} {text : Bytes} {count name front unit : List UInt8}

/-! ## Texts of sizes -/

def AreDigits (digits : List UInt8) : Prop :=
  digits ≠ [] ∧ ∀ digit ∈ digits, 48 ≤ digit.toNat ∧ digit.toNat ≤ 57

/-- The number that digits denote, the last of them being the ones. -/
def numberOf (digits : List UInt8) : Nat :=
  Nat.ofDigits 10 (digits.reverse.map fun digit => digit.toNat - 48)

inductive IsCount : List UInt8 → Int → Prop
  | unsigned {digits : List UInt8} : AreDigits digits → IsCount digits (numberOf digits)
  | plus {digits : List UInt8} : AreDigits digits → IsCount (43 :: digits) (numberOf digits)
  | minus {digits : List UInt8} : AreDigits digits → IsCount (45 :: digits) (-numberOf digits)

def unitTexts : List (List UInt8 × Nat) :=
  [([71, 105, 66], 2 ^ 30), ([77, 105, 66], 2 ^ 20), ([75, 105, 66], 2 ^ 10), ([66], 1)]

/-- What may follow a count: nothing, or a unit with white space before it. -/
inductive IsUnit : List UInt8 → Nat → Prop
  | none : IsUnit [] 1
  | named {gap name : List UInt8} {factor : Nat} :
      IsWhiteSpace gap → (name, factor) ∈ unitTexts → IsUnit (gap ++ name) factor

/-- Texts of a count of units, with white space around them. -/
inductive IsSize : List UInt8 → Int → Nat → Prop
  | intro {before count unit after : List UInt8} {number : Int} {factor : Nat} :
      IsWhiteSpace before → IsCount count number → IsUnit unit factor → IsWhiteSpace after →
      IsSize (before ++ count ++ unit ++ after) number factor

theorem unitTexts_eq : unitTexts = units.map fun entry => (toList entry.1, entry.2) := by
  decide

/-! ## Counts -/

theorem foldl_digits (digits : List UInt8) :
    digits.foldl (fun value digit => value * 10 + (digit.toNat - 48)) 0 = numberOf digits := by
  induction digits using List.reverseRecOn with
  | nil => rfl
  | append_singleton digits digit ih =>
    rw [List.foldl_append, ih, List.foldl_cons, List.foldl_nil, numberOf,
      numberOf,
      List.reverse_append, List.reverse_singleton, List.singleton_append, List.map_cons,
      Nat.ofDigits_cons]
    omega

theorem natOfDigits?_eq_some {digits : List UInt8} {value : Nat} :
    natOfDigits? digits = some value ↔ AreDigits digits ∧ value = numberOf digits := by
  have areDigits : (!digits.isEmpty && digits.all Bytes.isDigit) = true ↔ AreDigits digits := by
    simp [AreDigits, Bytes.isDigit, UInt8.le_iff_toNat_le]
  unfold natOfDigits?
  rw [foldl_digits]
  by_cases digit : AreDigits digits
  · rw [if_pos (areDigits.2 digit), Option.some_inj]
    exact ⟨fun same => ⟨digit, same.symm⟩, fun read => read.2.symm⟩
  · rw [if_neg (mt areDigits.1 digit)]
    exact ⟨nofun, fun read => absurd read.1 digit⟩

theorem AreDigits.not_signed {byte : UInt8} {rest : List UInt8}
    (digits : AreDigits (byte :: rest)) : byte ≠ 43 ∧ byte ≠ 45 := by
  have first := digits.2 byte List.mem_cons_self
  constructor <;> rintro rfl <;> exact absurd first (by decide)

theorem integerOf?_eq_some {text : List UInt8} :
    integerOf? text = some number ↔ IsCount text number := by
  constructor
  · intro read
    unfold integerOf? at read
    split at read
    · obtain ⟨value, found, rfl⟩ := Option.map_eq_some_iff.1 read
      obtain ⟨digits, rfl⟩ := natOfDigits?_eq_some.1 found
      exact .plus digits
    · obtain ⟨value, found, rfl⟩ := Option.map_eq_some_iff.1 read
      obtain ⟨digits, rfl⟩ := natOfDigits?_eq_some.1 found
      exact .minus digits
    · obtain ⟨value, found, rfl⟩ := Option.map_eq_some_iff.1 read
      obtain ⟨digits, rfl⟩ := natOfDigits?_eq_some.1 found
      exact .unsigned digits
  · intro count
    cases count with
    | plus digits => simp [integerOf?, natOfDigits?_eq_some.2 ⟨digits, rfl⟩]
    | minus digits => simp [integerOf?, natOfDigits?_eq_some.2 ⟨digits, rfl⟩]
    | unsigned digits =>
      cases text with
      | nil => exact absurd rfl digits.1
      | cons byte rest =>
        obtain ⟨notPlus, notMinus⟩ := digits.not_signed
        unfold integerOf?
        split
        · next same => exact absurd (List.cons.inj same).1 notPlus
        · next same => exact absurd (List.cons.inj same).1 notMinus
        · rw [natOfDigits?_eq_some.2 ⟨digits, rfl⟩]
          rfl

/-- The bytes of a count are a sign or digits; it begins with one of them and ends in a digit. -/
structure CountBytes (count : List UInt8) : Prop where
  nonempty : count ≠ []
  bytes : ∀ byte ∈ count, 43 ≤ byte.toNat ∧ byte.toNat ≤ 57

theorem IsCount.countBytes (isCount : IsCount count number) : CountBytes count := by
  have signed {digits : List UInt8} (areDigits : AreDigits digits) (sign : UInt8)
      (isSign : 43 ≤ sign.toNat ∧ sign.toNat ≤ 57) : CountBytes (sign :: digits) := by
    refine ⟨List.cons_ne_nil _ _, fun byte member => ?_⟩
    rcases List.mem_cons.1 member with rfl | among
    · exact isSign
    · have digit := areDigits.2 byte among
      omega
  cases isCount with
  | unsigned digits => exact ⟨digits.1, fun byte member => by have := digits.2 byte member; omega⟩
  | plus digits => exact signed digits 43 (by decide)
  | minus digits => exact signed digits 45 (by decide)

/-! ## Units -/

def unitAtEnd? (text : List UInt8) : Option (List UInt8 × Nat) :=
  unitTexts.find? fun entry => decide (entry.1 <:+ text)

theorem units_find? (text : Bytes) :
    unitAtEnd? (toList text) = (units.find? fun entry => Bytes.endsWith text entry.1).map
      fun entry => (toList entry.1, entry.2) := by
  have same : (fun entry : Bytes × Nat => Bytes.endsWith text entry.1) =
      (fun entry => decide (entry.1 <:+ toList text)) ∘ fun entry => (toList entry.1, entry.2) := by
    funext entry
    rw [Bool.eq_iff_iff, Bytes.endsWith_iff, Function.comp_apply, decide_eq_true_iff]
  rw [unitAtEnd?, unitTexts_eq, List.find?_map, same]

theorem unitAtEnd?_eq_some {text : List UInt8} (found : unitAtEnd? text = some (name, factor)) :
    (name, factor) ∈ unitTexts ∧ name <:+ text := by
  unfold unitAtEnd? at found
  have suffix := List.find?_some found
  exact ⟨List.mem_of_find?_eq_some found, of_decide_eq_true suffix⟩

theorem splitUnit_some (found : unitAtEnd? (toList text) = some (name, factor))
    (split : toList text = front ++ name) :
    splitUnit text = (Text.trimSpace (ofList front), factor) := by
  rw [units_find?] at found
  obtain ⟨⟨ending, multiple⟩, entry, same⟩ := Option.map_eq_some_iff.1 found
  cases same
  have shorter := Bytes.toList_take_ending split
  unfold splitUnit
  rw [entry]
  dsimp only
  rw [← shorter]
  rfl

theorem splitUnit_none (found : unitAtEnd? (toList text) = none) : splitUnit text = (text, 1) := by
  rw [units_find?, Option.map_eq_none_iff] at found
  unfold splitUnit
  rw [found]

theorem not_suffix_of_ne {letter other : UInt8} (different : letter ≠ other) :
    ¬ [letter, 105, 66] <:+ front ++ [other, 105, 66] := by
  rintro ⟨rest, same⟩
  have ends := (List.append_inj' same rfl).2
  exact different (List.cons.inj ends).1

theorem not_suffix_of_not_mem {letter : UInt8} (absent : 105 ∉ front) :
    ¬ [letter, 105, 66] <:+ front ++ [66] := by
  rintro ⟨rest, same⟩
  rw [show [letter, 105, 66] = [letter, 105] ++ [66] from rfl, ← List.append_assoc] at same
  apply absent
  rw [← (List.append_inj' same rfl).1]
  simp

/-- A unit is found behind anything that does not end in an `i`. -/
theorem unitAtEnd?_append (member : (name, factor) ∈ unitTexts) (absent : 105 ∉ front) :
    unitAtEnd? (front ++ name) = some (name, factor) := by
  have suffix := List.suffix_append front name
  simp only [unitTexts, List.mem_cons, Prod.mk.injEq, List.not_mem_nil, or_false] at member
  unfold unitAtEnd? unitTexts
  rcases member with ⟨rfl, rfl⟩ | ⟨rfl, rfl⟩ | ⟨rfl, rfl⟩ | ⟨rfl, rfl⟩
  · simp [suffix]
  · have first := @not_suffix_of_ne front 71 77 (by decide)
    simp [suffix, first]
  · have first := @not_suffix_of_ne front 71 75 (by decide)
    have second := @not_suffix_of_ne front 77 75 (by decide)
    simp [suffix, first, second]
  · have others := fun letter => @not_suffix_of_not_mem front letter absent
    simp [suffix, others]

theorem mem_of_unit (member : (name, factor) ∈ unitTexts) :
    66 ∈ name ∧ name ≠ [] ∧ name.getLast? = some 66 ∧ 0 < factor ∧ ∀ byte ∈ name, byte < 0x80 := by
  simp only [unitTexts, List.mem_cons, Prod.mk.injEq, List.not_mem_nil, or_false] at member
  rcases member with ⟨rfl, rfl⟩ | ⟨rfl, rfl⟩ | ⟨rfl, rfl⟩ | ⟨rfl, rfl⟩ <;> simp

theorem unitAtEnd?_eq_none {text : List UInt8} (absent : 66 ∉ text) : unitAtEnd? text = none := by
  unfold unitAtEnd?
  rw [List.find?_eq_none]
  intro entry member suffix
  exact absent ((of_decide_eq_true suffix).subset (mem_of_unit member).1)

/-! ## Reading -/

/-- What is left of a text as count and unit is found in it, with white space around both. -/
theorem splitUnit_split (text : Bytes) :
    ∃ before unit, IsWhiteSpace before ∧ IsUnit unit (splitUnit text).2 ∧
      toList text = before ++ toList (splitUnit text).1 ++ unit := by
  cases found : unitAtEnd? (toList text) with
  | none =>
    rw [splitUnit_none found]
    exact ⟨[], [], .nil, .none, by simp⟩
  | some entry =>
    obtain ⟨name, factor⟩ := entry
    obtain ⟨member, front, split⟩ := unitAtEnd?_eq_some found
    rw [splitUnit_some found split.symm]
    obtain ⟨before, gap, beforeSpace, gapSpace, inner⟩ := Text.trimSpace_split (ofList front)
    refine ⟨before, gap ++ name, beforeSpace, .named gapSpace member, ?_⟩
    rw [Bytes.toList_ofList] at inner
    have whole := congrArg (· ++ name) inner
    simp only [List.append_assoc] at whole ⊢
    exact split.symm.trans whole

theorem CountBytes.not_space (counts : CountBytes count) {code : Nat}
    (member : code ∈ count.map UInt8.toNat) : code < 0x80 ∧ isSpace code = false := by
  obtain ⟨byte, among, rfl⟩ := List.mem_map.1 member
  have range := counts.bytes byte among
  refine ⟨by omega, ?_⟩
  simp only [Text.isSpace, Bool.or_eq_false_iff, Bool.and_eq_false_iff, decide_eq_false_iff_not,
    beq_eq_false_iff_ne]
  omega

theorem IsCount.exists_codes (isCount : IsCount count number) (isUnit : IsUnit unit factor) :
    ∃ codes, count ++ unit = encoded codes ∧ (∀ code ∈ codes, IsPlain code) ∧ codes ≠ [] ∧
      (∀ code ∈ codes.head?, isSpace code = false) ∧
      ∀ code ∈ codes.getLast?, isSpace code = false := by
  have counts := isCount.countBytes
  have nonempty : count.map UInt8.toNat ≠ [] := by simpa using counts.nonempty
  have written : encoded (count.map UInt8.toNat) = count :=
    Text.encoded_ascii fun byte member => by
      have range := counts.bytes byte member
      omega
  have plain : ∀ code ∈ count.map UInt8.toNat, IsPlain code :=
    fun code member => .inl (counts.not_space member).1
  have first (codes : List Nat) :
      ∀ code ∈ (count.map UInt8.toNat ++ codes).head?, isSpace code = false := by
    rw [List.head?_append_of_ne_nil _ nonempty]
    exact fun code member => (counts.not_space (List.mem_of_mem_head? member)).2
  cases isUnit with
  | none =>
    refine ⟨count.map UInt8.toNat, by rw [written, List.append_nil], plain, nonempty, ?_, ?_⟩
    · have alone := first []
      rwa [List.append_nil] at alone
    · exact fun code member => (counts.not_space (List.mem_of_mem_getLast? member)).2
  | @named gap name _ gapSpace isName =>
    obtain ⟨codes, spaces, rfl⟩ := gapSpace
    obtain ⟨_, named, last, _, ascii⟩ := mem_of_unit isName
    have nameAscii : ∀ byte ∈ name, byte.toNat < 0x80 :=
      fun byte member => UInt8.lt_iff_toNat_lt.1 (ascii byte member)
    refine ⟨count.map UInt8.toNat ++ (codes ++ name.map UInt8.toNat), ?_, ?_, ?_, first _, ?_⟩
    · rw [Text.encoded_append, Text.encoded_append, written, Text.encoded_ascii nameAscii]
    · intro code member
      rcases List.mem_append.1 member with among | member
      · exact plain code among
      · rcases List.mem_append.1 member with among | among
        · exact .inr (spaces code among)
        · obtain ⟨byte, inside, rfl⟩ := List.mem_map.1 among
          exact .inl (nameAscii byte inside)
    · exact List.append_ne_nil_of_left_ne_nil nonempty _
    · have shown : name.map UInt8.toNat ≠ [] := by simpa using named
      rw [← List.append_assoc, List.getLast?_append_of_ne_nil _ shown, List.getLast?_map, last]
      rintro code ⟨⟩
      rfl

theorem splitUnit_eq (isCount : IsCount count number) (isUnit : IsUnit unit factor) :
    splitUnit (ofList (count ++ unit)) = (ofList count, factor) := by
  have counts := isCount.countBytes
  have absent (byte : UInt8) (letter : 57 < byte.toNat) : byte ∉ count := by
    intro member
    have range := counts.bytes byte member
    omega
  cases isUnit with
  | none =>
    rw [List.append_nil]
    exact splitUnit_none (unitAtEnd?_eq_none (absent 66 (by decide)))
  | @named gap name _ gapSpace isName =>
    have noLetter : 105 ∉ count ++ gap := by
      intro member
      rcases List.mem_append.1 member with among | among
      · exact absent 105 (by decide) among
      · rcases gapSpace.byte among with low | high
        · exact absurd low (by decide)
        · exact absurd high (by decide)
    have found := unitAtEnd?_append isName noLetter
    rw [← Bytes.toList_ofList (count ++ gap ++ name)] at found
    rw [← List.append_assoc, splitUnit_some found (Bytes.toList_ofList _)]
    obtain ⟨codes, same, plain, nonempty, first, last⟩ := isCount.exists_codes .none
    rw [List.append_nil] at same
    have trimmed := Text.trimSpace_around .nil gapSpace same plain nonempty first last
    rw [List.nil_append] at trimmed
    rw [trimmed]

theorem toInt_ofInt_of_le (notNegative : 0 ≤ number) (fits : number ≤ largest) :
    (Int64.ofInt number).toInt = number := by
  rw [Int64.toInt_ofInt]
  unfold largest at fits
  apply Int.bmod_eq_of_le <;> simp only [Int64.size] <;> omega

/-- A text whose count and unit are known is a size if the count is, and the product is small. -/
theorem parse_eq_ok {count : Bytes} (split : splitUnit (Text.trimSpace text) = (count, factor))
    (positive : 0 < factor) (size : Int64) :
    parse text = .ok size ↔
      ∃ number, IsCount (toList count) number ∧ 0 ≤ number ∧ number * factor ≤ largest ∧
        size.toInt = number * factor := by
  unfold parse
  rw [split]
  dsimp only
  cases read : integerOf? (toList count) with
  | none =>
    refine ⟨nofun, ?_⟩
    rintro ⟨number, isCount, _⟩
    rw [integerOf?_eq_some.2 isCount] at read
    cases read
  | some value =>
    have unique {number : Int} (isCount : IsCount (toList count) number) : number = value :=
      Option.some_inj.1 ((integerOf?_eq_some.2 isCount).symm.trans read)
    have fits_iff : 0 ≤ value → (value ≤ ((largest / factor : Nat) : Int) ↔
        value * factor ≤ largest) := by
      intro notNegative
      obtain ⟨number, rfl⟩ := Int.eq_ofNat_of_zero_le notNegative
      rw [Int.ofNat_le, Nat.le_div_iff_mul_le positive, ← Int.natCast_mul, Int.ofNat_le]
    have quotient : ((largest / factor : Nat) : Int) ≤ largest :=
      Int.ofNat_le.2 (Nat.div_le_self _ _)
    dsimp only
    constructor
    · intro parsed
      split at parsed
      · cases parsed
      · next inRange =>
          simp only [Bool.or_eq_true, decide_eq_true_eq, not_or, Int.not_lt] at inRange
          split at parsed
          · cases parsed
          · next small =>
              have fits := (fits_iff inRange.1).1 (Int.not_lt.1 small)
              have notNegative := Int.mul_nonneg inRange.1 (Int.natCast_nonneg factor)
              cases parsed
              exact ⟨value, integerOf?_eq_some.1 read, inRange.1, fits,
                toInt_ofInt_of_le notNegative fits⟩
    · rintro ⟨number, isCount, notNegative, fits, same⟩
      obtain rfl := unique isCount
      have small := (fits_iff notNegative).2 fits
      rw [if_neg (by simpa using ⟨notNegative, small.trans quotient⟩), if_neg (by omega), ← same]
      exact congrArg Except.ok (Int64.ofInt_toInt size)

theorem isSize_of_count (isCount : IsCount (toList (splitUnit (Text.trimSpace text)).1) number) :
    IsSize (toList text) number (splitUnit (Text.trimSpace text)).2 := by
  obtain ⟨before, after, beforeSpace, afterSpace, whole⟩ := Text.trimSpace_split text
  obtain ⟨inner, unit, innerSpace, isUnit, parts⟩ := splitUnit_split (Text.trimSpace text)
  rw [whole, parts, ← List.append_assoc, ← List.append_assoc]
  exact .intro (beforeSpace.append innerSpace) isCount isUnit afterSpace

theorem IsSize.exists_split (isSize : IsSize (toList text) number factor) :
    ∃ count, IsCount count number ∧
      splitUnit (Text.trimSpace text) = (ofList count, factor) := by
  generalize shown : toList text = bytes at isSize
  obtain ⟨beforeSpace, isCount, isUnit, afterSpace⟩ := isSize
  rename_i before count unit after
  refine ⟨count, isCount, ?_⟩
  obtain ⟨codes, same, plain, nonempty, first, last⟩ := isCount.exists_codes isUnit
  have trimmed := Text.trimSpace_around beforeSpace afterSpace same plain nonempty first last
  rw [← List.append_assoc, ← shown, Bytes.ofList_toList] at trimmed
  rw [trimmed, splitUnit_eq isCount isUnit]

theorem IsUnit.positive (isUnit : IsUnit unit factor) : 0 < factor := by
  cases isUnit with
  | none => exact Nat.one_pos
  | named _ member => exact (mem_of_unit member).2.2.2.1

/--
A text is read as a size exactly if it is one and the bytes it stands for fit: a count that is not
negative, whose product with the unit is at most the largest size. The size is that product. Every
other text is refused, with zero in the place of a size.
-/
theorem parse_exact (text : Bytes) :
    (∀ size, parse text = .ok size ↔ ∃ number factor, IsSize (toList text) number factor ∧
      0 ≤ number ∧ number * factor ≤ 2 ^ 63 - 1 ∧ size.toInt = number * factor) ∧
    ((¬ ∃ number factor, IsSize (toList text) number factor ∧
      0 ≤ number ∧ number * factor ≤ 2 ^ 63 - 1) →
      (∃ error, parse text = .error error) ∧ (parse text).toOption.getD 0 = 0) := by
  have exact_reading (size : Int64) : parse text = .ok size ↔
      ∃ number factor, IsSize (toList text) number factor ∧
        0 ≤ number ∧ number * factor ≤ 2 ^ 63 - 1 ∧ size.toInt = number * factor := by
    obtain ⟨_, _, _, isUnit, _⟩ := splitUnit_split (Text.trimSpace text)
    have split : splitUnit (Text.trimSpace text) = ((splitUnit (Text.trimSpace text)).1,
        (splitUnit (Text.trimSpace text)).2) := rfl
    rw [parse_eq_ok split isUnit.positive]
    constructor
    · rintro ⟨number, isCount, notNegative, fits, same⟩
      exact ⟨number, _, isSize_of_count isCount, notNegative, fits, same⟩
    · rintro ⟨number, factor, isSize, notNegative, fits, same⟩
      obtain ⟨count, isCount, split⟩ := isSize.exists_split
      rw [split]
      exact ⟨number, by rwa [Bytes.toList_ofList], notNegative, fits, same⟩
  refine ⟨exact_reading, fun unread => ?_⟩
  cases parsed : parse text with
  | error error => exact ⟨⟨error, rfl⟩, rfl⟩
  | ok size =>
    obtain ⟨number, factor, isSize, notNegative, fits, _⟩ := (exact_reading size).1 parsed
    exact absurd ⟨number, factor, isSize, notNegative, fits⟩ unread

example : parse "  +8 KiB\n" = .ok 8192 := by decide

end Size

end WordMachine
