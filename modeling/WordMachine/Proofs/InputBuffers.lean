import WordMachine.Platform.Input
import WordMachine.Proofs.PathNames

/-!
Reads through the buffer of the console input. Whatever was buffered, every read hands out the next
bytes of the source: as many as it asks for or fewer, one of them, or those of a line.
-/

namespace WordMachine

namespace Bytes

theorem toList_extract (text : Bytes) (first last : Nat) :
    toList (text.extract first last) = ((toList text).take last).drop first := by
  rw [toList, ByteArray.data_extract, Array.toList_extract, List.extract_eq_drop_take',
    Bytes.toList]

/-- What is between two places, with what comes after the second one. -/
theorem drop_eq_extract_append {text : Bytes} {first last : Nat} (ordered : first ≤ last) :
    (toList text).drop first = toList (text.extract first last) ++ (toList text).drop last := by
  rw [toList_extract]
  conv_lhs => rw [← List.take_append_drop last (toList text)]
  by_cases inside : last ≤ (toList text).length
  · rw [List.drop_append_of_le_length (by rw [List.length_take]; omega)]
  · rw [List.drop_eq_nil_of_le (by omega : (toList text).length ≤ last), List.append_nil,
      List.append_nil]

theorem getElem?_toList (text : Bytes) (position : Nat) :
    (toList text)[position]? = text[position]? := by
  by_cases inside : position < text.size
  · rw [List.getElem?_eq_getElem (show position < (toList text).length from inside),
      getElem?_pos text position inside]
    rfl
  · rw [List.getElem?_eq_none (show (toList text).length ≤ position from Nat.le_of_not_lt inside),
      getElem?_neg text position inside]

theorem drop_eq_cons {text : Bytes} {position : Nat} {byte : UInt8}
    (found : text[position]? = some byte) :
    (toList text).drop position = byte :: (toList text).drop (position + 1) := by
  rw [← getElem?_toList] at found
  obtain ⟨inside, same⟩ := List.getElem?_eq_some_iff.1 found
  rw [List.drop_eq_getElem_cons inside, same]

/-- What a search for a byte finds: the end of the bytes before the first such byte. -/
def Finds (rest : List UInt8) (byte : UInt8) (start : Nat) : Option Nat → Prop
  | some found => ∃ before after, rest = before ++ byte :: after ∧ byte ∉ before ∧
      found = start + before.length
  | none => byte ∉ rest

theorem finds_go (text : Bytes) (byte : UInt8) {fuel position : Nat}
    (enough : text.size ≤ position + fuel) :
    Finds ((toList text).drop position) byte position (indexOf?.go text byte fuel position) := by
  induction fuel generalizing position with
  | zero =>
    have nothing : (toList text).drop position = [] :=
      List.drop_eq_nil_of_le (by rw [length_toList]; omega)
    rw [nothing]
    exact List.not_mem_nil
  | succ fuel ih =>
    unfold indexOf?.go
    cases here : text[position]? with
    | none =>
      rw [← getElem?_toList, List.getElem?_eq_none_iff] at here
      rw [List.drop_eq_nil_of_le here]
      exact List.not_mem_nil
    | some first =>
      have split := drop_eq_cons here
      dsimp only
      by_cases same : first = byte
      · subst same
        rw [if_pos (beq_self_eq_true first), split]
        exact ⟨[], _, rfl, List.not_mem_nil, rfl⟩
      · rw [if_neg (by simpa using same), split]
        have rest := @ih (position + 1) (by omega)
        generalize indexOf?.go text byte fuel (position + 1) = outcome at rest ⊢
        cases outcome with
        | none =>
          exact fun member => rest ((List.mem_cons.1 member).resolve_left (Ne.symm same))
        | some found =>
          obtain ⟨before, after, whole, absent, place⟩ := rest
          refine ⟨first :: before, after, ?_, ?_, ?_⟩
          · rw [whole, List.cons_append]
          · exact fun member => absent ((List.mem_cons.1 member).resolve_left (Ne.symm same))
          · rw [place, List.length_cons]
            omega

theorem finds_indexOf? (text : Bytes) (byte : UInt8) (start : Nat) :
    Finds ((toList text).drop start) byte start (indexOf? text byte start) :=
  finds_go text byte (by omega)

end Bytes

namespace Input

open Bytes (toList)

/-- A buffer between what was handed out and what was taken from the source. -/
structure Sound (input : Input) : Prop where
  used : input.used ≤ input.fetched
  fetched : input.fetched ≤ input.source.size

/-- What has not been handed out. -/
def rest (input : Input) : List UInt8 :=
  (toList input.source).drop input.used

/-- Whether the next bytes of the input were handed out. -/
structure HandsOut (before : Input) (piece : List UInt8) (after : Input) : Prop where
  sound : after.Sound
  source : after.source = before.source
  rest : before.rest = piece ++ after.rest

variable {input : Input}

theorem handsOut_upTo {last fetched : Nat} (more : input.used ≤ last)
    (buffered : last ≤ fetched) (inside : fetched ≤ input.source.size) :
    input.HandsOut (toList (input.source.extract input.used last))
      { input with used := last, fetched } where
  sound := ⟨buffered, inside⟩
  source := rfl
  rest := Bytes.drop_eq_extract_append more

theorem sound_fill (sound : input.Sound) : input.fill.Sound where
  used := by
    have := sound.used
    have := sound.fetched
    simp only [fill]
    omega
  fetched := Nat.min_le_right _ _

theorem waiting_fill (sound : input.Sound) (empty : input.waiting = 0) :
    input.fill.waiting = min bufferSize (input.source.size - input.used) := by
  have := sound.used
  have := sound.fetched
  simp only [waiting, fill] at empty ⊢
  omega

theorem length_rest (input : Input) : input.rest.length = input.source.size - input.used := by
  rw [rest, List.length_drop, Bytes.length_toList]

/-- What a read for bytes hands out: what is asked for or less, and nothing only at the end. -/
structure ReadsUpTo (input : Input) (count : Nat) (answer : Bytes × Input) : Prop where
  handsOut : input.HandsOut (toList answer.1) answer.2
  size : answer.1.size ≤ count
  some : input.rest ≠ [] → answer.1.size ≠ 0

theorem readsUpTo_consume (sound : input.Sound) {count : Nat} (positive : 0 < count)
    (ready : input.rest ≠ [] → input.waiting ≠ 0) :
    input.ReadsUpTo count (input.consume count) := by
  have := sound.used
  have := sound.fetched
  refine ⟨handsOut_upTo (by omega) (by omega) (by omega), ?_, fun more => ?_⟩
  · simp only [consume, ByteArray.size_extract]
    omega
  · have some := ready more
    simp only [waiting] at some
    simp only [consume, ByteArray.size_extract]
    omega

theorem readsUpTo_read (sound : input.Sound) {count : Nat} (positive : 0 < count) :
    input.ReadsUpTo count (input.read count) := by
  have := sound.used
  have := sound.fetched
  unfold read
  by_cases empty : input.waiting = 0
  · have level : input.fetched = input.used := by
      simp only [waiting] at empty
      omega
    rw [if_pos empty]
    by_cases large : bufferSize ≤ count
    · rw [if_pos large]
      refine ⟨?_, ?_, fun more => ?_⟩
      · rw [take, level]
        exact handsOut_upTo (by omega) (by omega) (by omega)
      · simp only [take, ByteArray.size_extract]
        omega
      · have longer := List.length_pos_iff.2 more
        rw [length_rest] at longer
        simp only [take, ByteArray.size_extract]
        omega
    · rw [if_neg large]
      have filled := waiting_fill sound empty
      obtain ⟨handsOut, size, some⟩ := readsUpTo_consume (sound_fill sound) positive
        (fun more => by
          have longer := List.length_pos_iff.2 more
          rw [length_rest] at longer
          rw [filled, bufferSize]
          simp only [fill] at longer
          omega)
      exact ⟨⟨handsOut.sound, handsOut.source, handsOut.rest⟩, size, some⟩
  · rw [if_neg empty]
    exact readsUpTo_consume sound positive fun _ => empty

theorem readByte_eq (input : Input) :
    input.readByte =
      (((if input.waiting = 0 then input.fill else input).consume 1).1[0]?,
        ((if input.waiting = 0 then input.fill else input).consume 1).2) := rfl

theorem handsOut_readByte (sound : input.Sound) :
    input.HandsOut input.readByte.1.toList input.readByte.2 ∧
      (input.readByte.1 = none → input.rest = []) := by
  have ready : ∃ buffer : Input, buffer = (if input.waiting = 0 then input.fill else input) ∧
      buffer.Sound ∧ buffer.source = input.source ∧ buffer.used = input.used ∧
      (buffer.rest ≠ [] → buffer.waiting ≠ 0) := by
    by_cases empty : input.waiting = 0
    · rw [if_pos empty]
      refine ⟨_, rfl, sound_fill sound, rfl, rfl, fun more => ?_⟩
      have longer := List.length_pos_iff.2 more
      rw [length_rest] at longer
      rw [waiting_fill sound empty, bufferSize]
      simp only [fill] at longer
      omega
    · rw [if_neg empty]
      exact ⟨_, rfl, sound, rfl, rfl, fun _ => empty⟩
  obtain ⟨buffer, chosen, bufferSound, source, used, waits⟩ := ready
  obtain ⟨handsOut, size, some⟩ := readsUpTo_consume bufferSound Nat.one_pos waits
  have sameRest : buffer.rest = input.rest := by rw [rest, rest, source, used]
  rw [readByte_eq, ← chosen]
  generalize buffer.consume 1 = answer at handsOut size some ⊢
  obtain ⟨data, after⟩ := answer
  have first : data[0]?.toList = toList data := by
    rw [← Bytes.getElem?_toList]
    have short : (toList data).length ≤ 1 := size
    match bytes : toList data, short with
    | [], _ => rfl
    | [byte], _ => rfl
  refine ⟨⟨handsOut.sound, handsOut.source.trans source, ?_⟩, fun none => ?_⟩
  · rw [← sameRest]
    dsimp only
    rw [first]
    exact handsOut.rest
  · by_contra more
    rw [← sameRest] at more
    have nonempty := some more
    dsimp only at none
    rw [none] at first
    have empty := congrArg List.length first
    rw [Bytes.length_toList] at empty
    exact nonempty empty.symm

/-! ## Lines -/

theorem fetchedThrough_bounds {target size fuel used fetched : Nat} (inside : target ≤ size)
    (within : fetched ≤ size) (enough : target ≤ fetched + fuel) :
    target ≤ fetchedThrough target size fuel used fetched ∧
      fetchedThrough target size fuel used fetched ≤ size := by
  induction fuel generalizing used fetched with
  | zero => exact ⟨enough, within⟩
  | succ fuel ih =>
    unfold fetchedThrough
    by_cases done : target ≤ fetched
    · rw [if_pos done]
      exact ⟨done, within⟩
    · rw [if_neg done]
      -- A buffer that is full is emptied first, so every round takes a byte at least.
      have room : 0 < bufferSize - (fetched - if bufferSize ≤ fetched - used then fetched
          else used) := by
        rw [bufferSize]
        split <;> omega
      exact ih (Nat.min_le_right _ _) (by omega)

/-- A line without its line end: one newline that it ends with, and then one carriage return. -/
def withoutEnding (bytes : List UInt8) (byte : UInt8) : List UInt8 :=
  if bytes.getLast? = some byte then bytes.dropLast else bytes

theorem toList_dropEnding (text : Bytes) (byte : UInt8) :
    toList (dropEnding text byte) = withoutEnding (toList text) byte := by
  have last : (toList text).getLast? = text[text.size - 1]? := by
    rw [List.getLast?_eq_getElem?, Bytes.length_toList, Bytes.getElem?_toList]
  have nonempty : text[text.size - 1]? = some byte → text.size ≠ 0 := by
    intro found
    obtain ⟨inside, _⟩ := getElem?_eq_some_iff.1 found
    exact Nat.ne_of_gt (Nat.lt_of_le_of_lt (Nat.zero_le _) inside)
  unfold dropEnding withoutEnding
  rw [last]
  by_cases ends : text[text.size - 1]? = some byte
  · rw [if_pos ⟨nonempty ends, ends⟩, if_pos ends, Bytes.toList_take, List.dropLast_eq_take,
      Bytes.length_toList]
  · rw [if_neg fun both => ends both.2, if_neg ends]

/-- The next line: what comes before the first newline, with it, or all that is left. -/
inductive NextLine (rest : List UInt8) : List UInt8 → Prop
  | ended {line after : List UInt8} :
      rest = line ++ 10 :: after → (10 : UInt8) ∉ line → NextLine rest (line ++ [10])
  | last : (10 : UInt8) ∉ rest → NextLine rest rest

/-- The line that starts after what was handed out ends at a place of the source. -/
theorem nextLine_extract (sound : input.Sound) :
    input.used ≤ input.lineEnd input.used ∧ input.lineEnd input.used ≤ input.source.size ∧
      NextLine input.rest
        (toList (input.source.extract input.used (input.lineEnd input.used))) := by
  have found := Bytes.finds_indexOf? input.source 10 input.used
  change Bytes.Finds input.rest 10 input.used _ at found
  have length := length_rest input
  have := sound.used
  have := sound.fetched
  unfold lineEnd
  generalize Bytes.indexOf? input.source 10 input.used = outcome at found
  cases outcome with
  | none =>
    have whole : toList (input.source.extract input.used input.source.size) = input.rest := by
      rw [Bytes.toList_extract, ← Bytes.length_toList, List.take_length]
      rfl
    refine ⟨by dsimp only; omega, Nat.le_refl _, ?_⟩
    dsimp only
    rw [whole]
    exact .last found
  | some newline =>
    obtain ⟨line, after, split, absent, place⟩ := found
    have sizes := congrArg List.length split
    rw [length, List.length_append, List.length_cons] at sizes
    refine ⟨by dsimp only; omega, by dsimp only; omega, ?_⟩
    have piece : toList (input.source.extract input.used (newline + 1)) = line ++ [10] := by
      have rest : input.rest = _ := Bytes.drop_eq_extract_append
        (show input.used ≤ newline + 1 by omega)
      have whole : line ++ 10 :: after = (line ++ [10]) ++ after := by simp
      rw [split, whole] at rest
      refine (List.append_inj_left rest ?_).symm
      rw [Bytes.length_toList, ByteArray.size_extract, List.length_append,
        List.length_singleton]
      omega
    dsimp only
    rw [piece]
    exact .ended split absent

theorem handsOut_readLine (sound : input.Sound) :
    ∃ piece, NextLine input.rest piece ∧ input.HandsOut piece input.readLine.2 ∧
      toList input.readLine.1 = withoutEnding (withoutEnding piece 10) 13 := by
  have := sound.used
  have := sound.fetched
  obtain ⟨more, inside, nextLine⟩ := nextLine_extract sound
  obtain ⟨buffered, within⟩ := @fetchedThrough_bounds (input.lineEnd input.used) input.source.size
    input.source.size input.used input.fetched inside (by omega) (by omega)
  refine ⟨_, nextLine, handsOut_upTo more buffered within, ?_⟩
  unfold readLine
  dsimp only
  rw [toList_dropEnding, toList_dropEnding]

end Input

end WordMachine
