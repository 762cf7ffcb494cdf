import WordMachine.Proofs.PathNames

/-!
White space around texts. Reading the glyphs of a byte string loses nothing, and a text is read back
from the encodings of its scalars; so trimming takes encoded white space off both ends, and nothing
else.
-/

namespace WordMachine.Text

open Bytes (ofList toList)

variable {bytes : List UInt8} {first second : UInt8}

/-! ## Encodings -/

theorem isContinuation_iff (byte : UInt8) :
    isContinuation byte = true ↔ 128 ≤ byte.toNat ∧ byte.toNat < 192 := by
  have all : ∀ value : Fin 256,
      isContinuation (UInt8.ofNat value) = true ↔ 128 ≤ value.val ∧ value.val < 192 := by
    decide +kernel
  simpa using all ⟨byte.toNat, byte.toNat_lt⟩

theorem toNat_lowBits (byte : UInt8) {mask : UInt8} {width : Nat}
    (isMask : mask.toNat = 2 ^ width - 1) : (byte &&& mask).toNat = byte.toNat % 2 ^ width := by
  rw [UInt8.toNat_and, isMask]
  exact Nat.and_two_pow_sub_one_eq_mod byte.toNat width

theorem continuationBits_eq (byte : UInt8) : continuationBits byte = byte.toNat % 2 ^ 6 :=
  toNat_lowBits byte rfl

theorem encodeScalar_two (lead : 0xc2 ≤ first.toNat ∧ first.toNat < 0xe0)
    (continued : isContinuation second = true) :
    encodeScalar ((first &&& 0x1f).toNat * 64 + continuationBits second) = [first, second] := by
  have bits : (first &&& 0x1f).toNat = first.toNat % 2 ^ 5 := toNat_lowBits first rfl
  obtain ⟨low, high⟩ := (isContinuation_iff second).1 continued
  rw [bits, continuationBits_eq, encodeScalar, if_neg (by omega), if_pos (by omega)]
  simp only [List.cons.injEq, and_true, ← UInt8.toNat_inj, UInt8.toNat_ofNat', Nat.toUInt8]
  omega

theorem encodeScalar_three {third : UInt8} (lead : 0xe0 ≤ first.toNat ∧ first.toNat < 0xf0)
    (secondContinued : isContinuation second = true) (thirdContinued : isContinuation third = true)
    (least : 0x800 ≤ (first &&& 0x0f).toNat * 4096 + continuationBits second * 64 +
      continuationBits third) :
    encodeScalar ((first &&& 0x0f).toNat * 4096 + continuationBits second * 64 +
      continuationBits third) = [first, second, third] := by
  have bits : (first &&& 0x0f).toNat = first.toNat % 2 ^ 4 := toNat_lowBits first rfl
  obtain ⟨secondLow, secondHigh⟩ := (isContinuation_iff second).1 secondContinued
  obtain ⟨thirdLow, thirdHigh⟩ := (isContinuation_iff third).1 thirdContinued
  rw [bits, continuationBits_eq, continuationBits_eq] at least ⊢
  rw [encodeScalar, if_neg (by omega), if_neg (by omega), if_pos (by omega)]
  simp only [List.cons.injEq, and_true, ← UInt8.toNat_inj, UInt8.toNat_ofNat', Nat.toUInt8]
  omega

theorem encodeScalar_four {third fourth : UInt8} (lead : 0xf0 ≤ first.toNat ∧ first.toNat < 0xf5)
    (secondContinued : isContinuation second = true) (thirdContinued : isContinuation third = true)
    (fourthContinued : isContinuation fourth = true)
    (least : 0x10000 ≤ (first &&& 0x07).toNat * 262144 + continuationBits second * 4096 +
      continuationBits third * 64 + continuationBits fourth) :
    encodeScalar ((first &&& 0x07).toNat * 262144 + continuationBits second * 4096 +
      continuationBits third * 64 + continuationBits fourth) = [first, second, third, fourth] := by
  have bits : (first &&& 0x07).toNat = first.toNat % 2 ^ 3 := toNat_lowBits first rfl
  obtain ⟨secondLow, secondHigh⟩ := (isContinuation_iff second).1 secondContinued
  obtain ⟨thirdLow, thirdHigh⟩ := (isContinuation_iff third).1 thirdContinued
  obtain ⟨fourthLow, fourthHigh⟩ := (isContinuation_iff fourth).1 fourthContinued
  rw [bits, continuationBits_eq, continuationBits_eq, continuationBits_eq] at least ⊢
  rw [encodeScalar, if_neg (by omega), if_neg (by omega), if_neg (by omega)]
  simp only [List.cons.injEq, and_true, ← UInt8.toNat_inj, UInt8.toNat_ofNat', Nat.toUInt8]
  omega

theorem encodeScalar_leading {code width : Nat}
    (found : leadingScalar? bytes = some (code, width)) :
    0 < width ∧ encodeScalar code ++ bytes.drop width = bytes := by
  cases bytes with
  | nil => cases found
  | cons first rest =>
    simp only [leadingScalar?, UInt8.lt_iff_toNat_lt, UInt8.reduceToNat] at found
    split at found
    · next ascii =>
      cases found
      refine ⟨Nat.one_pos, ?_⟩
      rw [encodeScalar, if_pos ascii]
      simp
    · split at found
      · cases found
      · split at found
        · next low high =>
          split at found
          · next second tail =>
            split at found
            · next continued =>
              cases found
              rw [encodeScalar_two (by omega) continued]
              exact ⟨Nat.two_pos, rfl⟩
            · cases found
          · cases found
        · split at found
          · next low high =>
            split at found
            · next second third tail =>
              split at found
              · next continued =>
                simp only [Bool.and_eq_true, decide_eq_true_eq] at continued
                obtain ⟨⟨⟨secondContinued, thirdContinued⟩, least⟩, _⟩ := continued
                cases found
                rw [encodeScalar_three (by omega) secondContinued thirdContinued least]
                exact ⟨Nat.succ_pos 2, rfl⟩
              · cases found
            · cases found
          · split at found
            · next low high =>
              split at found
              · next second third fourth tail =>
                split at found
                · next continued =>
                  simp only [Bool.and_eq_true, decide_eq_true_eq] at continued
                  obtain ⟨⟨⟨⟨secondContinued, thirdContinued⟩, fourthContinued⟩, least⟩, _⟩ :=
                    continued
                  cases found
                  rw [encodeScalar_four (by omega) secondContinued thirdContinued fourthContinued
                    least]
                  exact ⟨Nat.succ_pos 3, rfl⟩
                · cases found
              · cases found
            · cases found

/-! ## Glyphs -/

theorem flatMap_glyphsWith {fuel : Nat} (enough : bytes.length ≤ fuel) :
    (glyphsWith fuel bytes).flatMap Glyph.bytes = bytes := by
  induction fuel generalizing bytes with
  | zero =>
    cases List.length_eq_zero_iff.1 (Nat.le_zero.1 enough)
    rfl
  | succ fuel ih =>
    cases bytes with
    | nil => rfl
    | cons byte rest =>
      rw [List.length_cons] at enough
      unfold glyphsWith
      split
      · next code width found =>
        obtain ⟨positive, encoded⟩ := encodeScalar_leading found
        obtain ⟨width, rfl⟩ : ∃ less, width = less + 1 := ⟨width - 1, by omega⟩
        rw [List.flatMap_cons, Nat.add_sub_cancel,
          ih (by rw [List.length_drop]; omega)]
        exact encoded
      · rw [List.flatMap_cons, ih (by omega)]
        rfl

/-- Scalars that are read back wherever they are encoded: those of one byte and white space. -/
def IsPlain (code : Nat) : Prop :=
  code < 0x80 ∨ isSpace code = true

theorem leadingScalar?_encode {code : Nat} (plain : IsPlain code) (rest : List UInt8) :
    leadingScalar? (encodeScalar code ++ rest) = some (code, (encodeScalar code).length) := by
  by_cases ascii : code < 0x80
  · rw [encodeScalar, if_pos ascii]
    have small : code.toUInt8.toNat = code := by
      rw [Nat.toUInt8, UInt8.toNat_ofNat']
      omega
    have below : code.toUInt8 < 0x80 := by
      rw [UInt8.lt_iff_toNat_lt, small]
      exact ascii
    refine (if_pos below).trans ?_
    rw [small]
    rfl
  · have space := plain.resolve_left ascii
    have among : code ∈ [0x85, 0xa0, 0x1680, 0x2000, 0x2001, 0x2002, 0x2003, 0x2004, 0x2005, 0x2006,
        0x2007, 0x2008, 0x2009, 0x200a, 0x2028, 0x2029, 0x202f, 0x205f, 0x3000] := by
      simp only [isSpace, Bool.or_eq_true, Bool.and_eq_true, decide_eq_true_eq, beq_iff_eq] at space
      simp only [List.mem_cons, List.not_mem_nil, or_false]
      omega
    simp only [List.mem_cons, List.not_mem_nil, or_false] at among
    rcases among with rfl | rfl | rfl | rfl | rfl | rfl | rfl | rfl | rfl | rfl | rfl | rfl | rfl |
      rfl | rfl | rfl | rfl | rfl | rfl <;> rfl

theorem length_encodeScalar_pos (code : Nat) : 0 < (encodeScalar code).length := by
  unfold encodeScalar
  split
  · exact Nat.one_pos
  · split
    · exact Nat.two_pos
    · split <;> exact Nat.succ_pos _

/-- The bytes of scalars one after another. -/
def encoded (codes : List Nat) : List UInt8 :=
  codes.flatMap encodeScalar

theorem encoded_append (left right : List Nat) :
    encoded (left ++ right) = encoded left ++ encoded right :=
  List.flatMap_append

theorem glyphsWith_encoded {fuel : Nat} {codes : List Nat} (plain : ∀ code ∈ codes, IsPlain code)
    (enough : (encoded codes).length ≤ fuel) :
    glyphsWith fuel (encoded codes) = codes.map .scalar := by
  induction codes generalizing fuel with
  | nil => cases fuel <;> rfl
  | cons code codes ih =>
    have found := leadingScalar?_encode (plain code List.mem_cons_self) (encoded codes)
    have rest := @ih
    have positive := length_encodeScalar_pos code
    rw [encoded, List.flatMap_cons, List.length_append] at enough
    change glyphsWith fuel (encodeScalar code ++ encoded codes) = _
    generalize encodeScalar code = first at found positive enough
    cases first with
    | nil => cases positive
    | cons byte bytes =>
      rw [List.length_cons] at enough
      obtain ⟨fuel, rfl⟩ : ∃ less, fuel = less + 1 := ⟨fuel - 1, by omega⟩
      rw [List.cons_append, glyphsWith, ← List.cons_append, found]
      dsimp only
      rw [List.length_cons, Nat.add_sub_cancel, List.drop_left,
        rest (fun other member => plain other (List.mem_cons_of_mem _ member))
          (by unfold encoded; omega), List.map_cons]

/-! ## Trimming -/

def IsWhiteSpace (bytes : List UInt8) : Prop :=
  ∃ codes, (∀ code ∈ codes, isSpace code = true) ∧ bytes = encoded codes

theorem IsWhiteSpace.nil : IsWhiteSpace [] :=
  ⟨[], fun _ => nofun, rfl⟩

theorem IsWhiteSpace.append {left right : List UInt8} (leftSpace : IsWhiteSpace left)
    (rightSpace : IsWhiteSpace right) : IsWhiteSpace (left ++ right) := by
  obtain ⟨codes, spaces, rfl⟩ := leftSpace
  obtain ⟨others, otherSpaces, rfl⟩ := rightSpace
  refine ⟨codes ++ others, ?_, (encoded_append codes others).symm⟩
  intro code member
  rcases List.mem_append.1 member with first | second
  · exact spaces code first
  · exact otherSpaces code second

theorem IsWhiteSpace.byte (space : IsWhiteSpace bytes) {byte : UInt8} (member : byte ∈ bytes) :
    byte.toNat ≤ 32 ∨ 128 ≤ byte.toNat := by
  obtain ⟨codes, spaces, rfl⟩ := space
  obtain ⟨code, among, inside⟩ := List.mem_flatMap.1 member
  have isSpace := spaces code among
  simp only [Text.isSpace, Bool.or_eq_true, Bool.and_eq_true, decide_eq_true_eq, beq_iff_eq]
    at isSpace
  unfold encodeScalar at inside
  split at inside
  · rw [List.mem_singleton] at inside
    rw [inside, Nat.toUInt8, UInt8.toNat_ofNat']
    omega
  · right
    have high : ∀ value, 128 ≤ value → value < 256 → 128 ≤ (Nat.toUInt8 value).toNat := by
      intro value low below
      rw [Nat.toUInt8, UInt8.toNat_ofNat']
      omega
    split at inside
    · simp only [List.mem_cons, List.not_mem_nil, or_false] at inside
      rcases inside with rfl | rfl <;> exact high _ (by omega) (by omega)
    · rw [if_pos (by omega)] at inside
      simp only [List.mem_cons, List.not_mem_nil, or_false] at inside
      rcases inside with rfl | rfl | rfl <;> exact high _ (by omega) (by omega)

theorem isWhiteSpace_of_blank {units : List Glyph} (blank : ∀ glyph ∈ units, glyph.isBlank = true) :
    IsWhiteSpace (units.flatMap Glyph.bytes) := by
  induction units with
  | nil => exact ⟨[], fun _ => nofun, rfl⟩
  | cons glyph units ih =>
    have rest := ih fun other member =>
      blank other (List.mem_cons_of_mem _ member)
    have first := blank glyph List.mem_cons_self
    cases glyph with
    | stray byte => cases first
    | scalar code =>
      have single : IsWhiteSpace (encodeScalar code) := by
        refine ⟨[code], ?_, by simp [encoded]⟩
        intro other member
        rw [List.mem_singleton.1 member]
        exact first
      exact single.append rest

/-- Items with those at both ends dropped that pass a test. -/
theorem exists_trimmed {α : Type} (test : α → Bool) (items : List α) :
    ∃ before after, (∀ item ∈ before, test item = true) ∧ (∀ item ∈ after, test item = true) ∧
      items = before ++ ((items.dropWhile test).reverse.dropWhile test).reverse ++ after := by
  refine ⟨items.takeWhile test, ((items.dropWhile test).reverse.takeWhile test).reverse, ?_, ?_, ?_⟩
  · exact fun item member => List.mem_takeWhile_imp member
  · exact fun item member => List.mem_takeWhile_imp (List.mem_reverse.1 member)
  · rw [List.append_assoc, ← List.reverse_append, List.takeWhile_append_dropWhile,
      List.reverse_reverse, List.takeWhile_append_dropWhile]

/-- Trimming takes white space off both ends. -/
theorem trimSpace_split (text : Bytes) :
    ∃ before after, IsWhiteSpace before ∧ IsWhiteSpace after ∧
      toList text = before ++ toList (trimSpace text) ++ after := by
  obtain ⟨before, after, beforeBlank, afterBlank, split⟩ :=
    exists_trimmed Glyph.isBlank (glyphs text)
  refine ⟨before.flatMap Glyph.bytes, after.flatMap Glyph.bytes,
    isWhiteSpace_of_blank beforeBlank, isWhiteSpace_of_blank afterBlank, ?_⟩
  have lossless : (glyphs text).flatMap Glyph.bytes = toList text :=
    flatMap_glyphsWith (Nat.le_refl _)
  rw [← lossless, trimSpace, ofGlyphs, Bytes.toList_ofList, ← List.flatMap_append,
    ← List.flatMap_append, ← split]

theorem dropWhile_append_eq {α : Type} {test : α → Bool} {before items : List α}
    (all : ∀ item ∈ before, test item = true) (first : ∀ item ∈ items.head?, test item = false) :
    (before ++ items).dropWhile test = items := by
  rw [List.dropWhile_append_of_pos all]
  cases items with
  | nil => rfl
  | cons item items =>
    rw [List.dropWhile_cons_of_neg]
    rw [first item rfl]
    exact Bool.false_ne_true

/-- Nothing else is taken off. -/
theorem trimSpace_encoded {before items after : List Nat}
    (beforeSpace : ∀ code ∈ before, isSpace code = true)
    (afterSpace : ∀ code ∈ after, isSpace code = true) (plain : ∀ code ∈ items, IsPlain code)
    (nonempty : items ≠ []) (first : ∀ code ∈ items.head?, isSpace code = false)
    (last : ∀ code ∈ items.getLast?, isSpace code = false) :
    trimSpace (ofList (encoded (before ++ items ++ after))) = ofList (encoded items) := by
  have plains : ∀ code ∈ before ++ items ++ after, IsPlain code := by
    intro code member
    rcases List.mem_append.1 member with member | member
    · rcases List.mem_append.1 member with member | member
      · exact .inr (beforeSpace code member)
      · exact plain code member
    · exact .inr (afterSpace code member)
  have read : glyphs (ofList (encoded (before ++ items ++ after))) =
      (before ++ items ++ after).map .scalar :=
    glyphsWith_encoded plains (Nat.le_refl _)
  have blank : Glyph.isBlank ∘ Glyph.scalar = isSpace := rfl
  have front : (before ++ (items ++ after)).dropWhile isSpace = items ++ after := by
    apply dropWhile_append_eq beforeSpace
    rw [List.head?_append_of_ne_nil _ nonempty]
    exact first
  have back : (after.reverse ++ items.reverse).dropWhile isSpace = items.reverse := by
    apply dropWhile_append_eq
    · exact fun code member => afterSpace code (List.mem_reverse.1 member)
    · rw [List.head?_reverse]
      exact last
  unfold trimSpace
  rw [read, List.dropWhile_map, blank, List.append_assoc, front, ← List.map_reverse,
    List.dropWhile_map, blank, List.reverse_append, back, ← List.map_reverse, List.reverse_reverse,
    ofGlyphs, List.flatMap_map]
  rfl

theorem encoded_ascii (ascii : ∀ byte ∈ bytes, byte.toNat < 0x80) :
    encoded (bytes.map UInt8.toNat) = bytes := by
  induction bytes with
  | nil => rfl
  | cons byte bytes ih =>
    have single : encodeScalar byte.toNat = [byte] := by
      rw [encodeScalar, if_pos (ascii byte List.mem_cons_self)]
      simp
    rw [List.map_cons, encoded, List.flatMap_cons, single]
    exact congrArg (byte :: ·) (ih fun other member =>
      ascii other (List.mem_cons_of_mem _ member))

/-- White space around a text of scalars that are read back is taken off, and no more of it if the
text neither begins nor ends with white space. -/
theorem trimSpace_around {before middle after : List UInt8} {codes : List Nat}
    (beforeSpace : IsWhiteSpace before) (afterSpace : IsWhiteSpace after)
    (same : middle = encoded codes) (plain : ∀ code ∈ codes, IsPlain code) (nonempty : codes ≠ [])
    (first : ∀ code ∈ codes.head?, isSpace code = false)
    (last : ∀ code ∈ codes.getLast?, isSpace code = false) :
    trimSpace (ofList (before ++ middle ++ after)) = ofList middle := by
  obtain ⟨front, frontSpaces, rfl⟩ := beforeSpace
  obtain ⟨back, backSpaces, rfl⟩ := afterSpace
  rw [same, ← encoded_append, ← encoded_append]
  exact trimSpace_encoded frontSpaces backSpaces plain nonempty first last

end WordMachine.Text
