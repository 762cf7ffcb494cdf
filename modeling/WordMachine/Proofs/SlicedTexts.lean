import WordMachine.Proofs.RenamedHeaps
import WordMachine.Proofs.SafeExecution
import WordMachine.Proofs.TextStorage
import WordMachine.Proofs.WordEncodings

/-!
Parts of strings. The bounds of a slice are cut to the text from both sides, whatever they are; the
part between them is a new string, or the string itself if it is all of it. Two neighbouring parts
make up the text, a part of a part is a part, and an index into a part is one into the text.
-/

namespace WordMachine

/-! ## Parts of texts -/

namespace Text

/-- The bounds of a slice, cut to a text: it ends inside the text and starts no later. -/
def cutBounds (size : Nat) (first last : Int) : Nat × Nat :=
  let stop := min (max last 0) size
  ((min (max first 0) stop).toNat, stop.toNat)

/-- The bytes of a text between the bounds of a slice. -/
def part (text : Bytes) (first last : Int) : Bytes :=
  text.extract (cutBounds text.size first last).1 (cutBounds text.size first last).2

theorem clampRange_eq (size : Nat) (first last : Int32) :
    clampRange size first last = cutBounds size first.toInt last.toInt := by
  unfold clampRange cutBounds
  dsimp only
  rw [Prod.mk.injEq]
  omega

theorem cutBounds_le (size : Nat) (first last : Int) :
    (cutBounds size first last).1 ≤ (cutBounds size first last).2 ∧
      (cutBounds size first last).2 ≤ size := by
  unfold cutBounds
  dsimp only
  omega

theorem size_part (text : Bytes) (first last : Int) :
    (part text first last).size =
      (cutBounds text.size first last).2 - (cutBounds text.size first last).1 := by
  have inside := (cutBounds_le text.size first last).2
  rw [part, ByteArray.size_extract]
  omega

theorem part_whole {text : Bytes} {first last : Int}
    (whole : cutBounds text.size first last = (0, text.size)) : part text first last = text := by
  rw [part, whole, ByteArray.extract_zero_size]

/-- What comes before a place and what comes after it make up the text. -/
theorem part_append_part (text : Bytes) (place : Int) :
    part text 0 place ++ part text place text.size = text := by
  obtain ⟨ordered, inside⟩ := cutBounds_le text.size 0 place
  have first : cutBounds text.size 0 place = (0, (cutBounds text.size 0 place).2) := by
    unfold cutBounds
    dsimp only
    rw [Prod.mk.injEq]
    omega
  have second : cutBounds text.size place text.size =
      ((cutBounds text.size 0 place).2, text.size) := by
    unfold cutBounds
    dsimp only
    rw [Prod.mk.injEq]
    omega
  rw [part, part, first, second, ByteArray.extract_append_extract, Nat.zero_min,
    Nat.max_eq_right inside, ByteArray.extract_zero_size]

/-- The bounds in the text of a part of a part. -/
def innerBounds (size : Nat) (first last start stop : Int) : Nat × Nat :=
  let outer := cutBounds size first last
  let inner := cutBounds (outer.2 - outer.1) start stop
  (outer.1 + inner.1, outer.1 + inner.2)

theorem innerBounds_le (size : Nat) (first last start stop : Int) :
    (innerBounds size first last start stop).1 ≤ (innerBounds size first last start stop).2 ∧
      (innerBounds size first last start stop).2 ≤ size := by
  obtain ⟨ordered, inside⟩ := cutBounds_le size first last
  have inner := cutBounds_le ((cutBounds size first last).2 - (cutBounds size first last).1) start
    stop
  unfold innerBounds
  dsimp only
  omega

theorem part_part (text : Bytes) (first last start stop : Int) :
    part (part text first last) start stop =
      part text (innerBounds text.size first last start stop).1
        (innerBounds text.size first last start stop).2 := by
  have outer := cutBounds_le text.size first last
  have inner := cutBounds_le (part text first last).size start stop
  obtain ⟨ordered, inside⟩ := innerBounds_le text.size first last start stop
  have bounds : cutBounds text.size (innerBounds text.size first last start stop).1
      (innerBounds text.size first last start stop).2 =
        innerBounds text.size first last start stop := by
    unfold cutBounds
    refine Prod.ext ?_ ?_ <;> dsimp only <;> omega
  rw [size_part] at inner
  rw [part, part, part, bounds, ByteArray.extract_extract, ← part, size_part]
  unfold innerBounds
  dsimp only
  congr 1
  omega

theorem textIndex_part (text : Bytes) (first last : Int) (position : Int32) :
    textIndex (part text first last) position =
      if 0 ≤ position.toInt ∧ (cutBounds text.size first last).1 + position.toInt <
          (cutBounds text.size first last).2
        then text.byteAt ((cutBounds text.size first last).1 + position.toInt.toNat) else 0 := by
  have size := size_part text first last
  obtain ⟨ordered, inside⟩ := cutBounds_le text.size first last
  have sign : position < 0 ↔ position.toInt < 0 := by
    rw [Int32.lt_iff_toInt_lt, Int32.toInt_zero]
  unfold textIndex
  by_cases negative : position.toInt < 0
  · rw [if_pos (sign.2 negative), if_neg (by omega)]
  · rw [if_neg (mt sign.1 negative)]
    unfold Bytes.byteAt
    by_cases within : position.toInt.toNat < (part text first last).size
    · rw [dif_pos within, if_pos (by omega), dif_pos (by omega)]
      exact ByteArray.getElem_extract within
    · rw [dif_neg within, if_neg (by omega)]

end Text

/-! ## Heaps of strings -/

namespace Heap

/-- What instructions on strings leave of a heap: its texts, and room but for new objects. -/
structure Grows (heap after : Heap) (objects size : Nat) : Prop where
  recalls : after.Recalls
  denotes : ∀ word text, heap.Denotes word text → after.Denotes word text
  slots : after.slots.size ≤ heap.slots.size + objects
  limit : after.limit = heap.limit
  bytes : after.bytes ≤ heap.bytes + size

variable {heap middle after : Heap} {objects others size more : Nat}

theorem Grows.refl (recalls : heap.Recalls) : heap.Grows heap 0 0 :=
  ⟨recalls, fun _ _ denotes => denotes, Nat.le_refl _, rfl, by omega⟩

theorem Grows.trans (first : heap.Grows middle objects size)
    (second : middle.Grows after others more) :
    heap.Grows after (objects + others) (size + more) where
  recalls := second.recalls
  denotes := fun word text denotes => second.denotes word text (first.denotes word text denotes)
  slots := by
    have := first.slots
    have := second.slots
    omega
  limit := second.limit.trans first.limit
  bytes := by
    have := first.bytes
    have := second.bytes
    omega

theorem Grows.weaken (grows : heap.Grows after objects size) (fewer : objects ≤ others)
    (smaller : size ≤ more) : heap.Grows after others more where
  recalls := grows.recalls
  denotes := grows.denotes
  slots := grows.slots.trans (Nat.add_le_add_left fewer _)
  limit := grows.limit
  bytes := by
    have := grows.bytes
    omega

theorem hasRoom_iff :
    heap.hasRoom size = true ↔ heap.limit ≤ 0 ∨ heap.bytes + size ≤ heap.limit := by
  rw [hasRoom, Bool.or_eq_true, decide_eq_true_iff, decide_eq_true_iff]

theorem Grows.hasRoom (grows : heap.Grows after objects size) (room : heap.hasRoom more = true)
    (enough : size + others ≤ more) : after.hasRoom others = true := by
  rw [hasRoom_iff] at room ⊢
  rw [grows.limit]
  have := grows.bytes
  omega

theorem grows_remember {word : Word} {text : Bytes} (recalls : heap.Recalls)
    (denotes : heap.Denotes word text) : heap.Grows (heap.remember word text) 0 0 := by
  obtain ⟨made, contains⟩ := denotes.contains
  exact ⟨recalls.remember denotes, fun _ _ => (denotes_remember contains).2,
    Nat.le_of_eq (Array.size_modify ..), rfl, by simp [remember]⟩

theorem grows_allocate (recalls : heap.Recalls) (numbers : heap.slots.size + 1 < 2 ^ 32)
    (text : Bytes) : heap.Grows (heap.allocate (.string text)).2 1 (headerSize + text.size) := by
  have allocated := allocate_allocated recalls.wellFormed numbers (.string text)
  refine ⟨recalls.allocate numbers (admits_string text), fun _ _ denotes =>
    denotes.allocated allocated, Exec.allocate_size heap _, allocate_limit heap _, ?_⟩
  rw [allocate_eq, place_bytes, charged_bytes]
  exact Int.le_refl _

end Heap

/-! ## Instructions on strings -/

namespace Exec

/-- Whether an instruction takes its operands off the stack and puts a result there. -/
def Gives (op : Opcode) (executor : Executor) (shared : Shared) (operands : List Word)
    (result : Word) (later : Shared) : Prop :=
  ∀ assembly position,
    perform assembly op position ⟨executor.withOperands operands, shared⟩ =
      .ok () ⟨executor.withOperands [result], later⟩

variable {executor : Executor} {shared : Shared} {word : Word} {text : Bytes}

theorem text_eq (recalls : shared.heap.Recalls) (denotes : shared.heap.Denotes word text) :
    ∃ heap, Exec.text word ⟨executor, shared⟩ = .ok text ⟨executor, { shared with heap }⟩ ∧
      shared.heap.Grows heap 0 0 ∧ heap.allocations = shared.heap.allocations ∧
      heap.hasRoom = shared.heap.hasRoom := by
  cases denotes with
  | string contains =>
    exact ⟨shared.heap, Backing.exec_text_kept contains rfl, .refl recalls, rfl, rfl⟩
  | @link _ previous byte flat inner contains linked =>
    have whole : shared.heap.Denotes word (inner.push byte) := .link contains linked
    cases flat with
    | none =>
      exact ⟨_, Backing.exec_text_link contains (recalls.text_eq whole),
        Heap.grows_remember recalls whole, rfl, rfl⟩
    | some known =>
      have same := (recalls.kept _ _ _ _ contains).unique whole rfl
      rw [← same]
      exact ⟨shared.heap, Backing.exec_text_kept contains rfl, .refl recalls, rfl, rfl⟩

theorem pushString_eq (recalls : shared.heap.Recalls)
    (stack : executor.eval.items.size < executor.eval.capacity)
    (numbers : shared.heap.slots.size + 1 < 2 ^ 32)
    (room : shared.heap.hasRoom (Heap.headerSize + text.size) = true) :
    ∃ word later,
      pushString text ⟨executor, shared⟩ = .ok () ⟨executor.withOperands [word], later⟩ ∧
      later.heap.Denotes word text ∧
      shared.heap.Grows later.heap 1 (Heap.headerSize + text.size) ∧
      later.heap.allocations = shared.heap.allocations + 1 := by
  have makes : shared.heap.allocate? (.string text) =
      some (shared.heap.allocate (.string text)) := by
    rw [Heap.allocate?]
    exact if_pos room
  obtain ⟨⟨_, later⟩, pushed, heap, rfl⟩ := @pushNew_eq ⟨executor, shared⟩ _ _ _ makes
  rw [push_eq stack] at pushed
  have allocated := Heap.allocate_allocated recalls.wellFormed numbers (.string text)
  refine ⟨_, later, pushed, ?_, ?_, ?_⟩ <;> rw [heap]
  · exact .string allocated.contains_new
  · exact Heap.grows_allocate recalls numbers text
  · exact Heap.allocations_allocate _ _

variable {first last : Int32}

theorem perform_slice (recalls : shared.heap.Recalls) (denotes : shared.heap.Denotes word text)
    (executor : Executor) (first last : Int32) :
    ∃ heap, shared.heap.Grows heap 0 0 ∧ heap.allocations = shared.heap.allocations ∧
      heap.hasRoom = shared.heap.hasRoom ∧
      ∀ assembly position, perform assembly .slice position
          ⟨executor.withOperands [word, .ofInt first, .ofInt last], shared⟩ =
        (if Text.cutBounds text.size first.toInt last.toInt = (0, text.size) then push word
          else pushString (Text.part text first.toInt last.toInt))
            ⟨executor, { shared with heap }⟩ := by
  obtain ⟨heap, read, grows, allocations, room⟩ :=
    @text_eq executor shared word text recalls denotes
  refine ⟨heap, grows, allocations, room, fun assembly position => ?_⟩
  change Exec.slice _ = _
  unfold Exec.slice
  rw [Evaluation.exec_bind (popInt_push rfl), Evaluation.exec_bind (popInt_push rfl),
    Evaluation.exec_bind (Evaluation.exec_pop rfl)]
  change (Exec.text word >>= _) ⟨executor, shared⟩ = _
  rw [Evaluation.exec_bind read, Text.clampRange_eq]
  simp only [Prod.ext_iff, Text.part]

/-- A slice that is all of a string is that string, and makes nothing. -/
theorem gives_slice_whole (recalls : shared.heap.Recalls) (denotes : shared.heap.Denotes word text)
    (stack : executor.eval.items.size < executor.eval.capacity)
    (whole : Text.cutBounds text.size first.toInt last.toInt = (0, text.size)) :
    ∃ later, Gives .slice executor shared [word, .ofInt first, .ofInt last] word later ∧
      shared.heap.Grows later.heap 0 0 ∧ later.heap.allocations = shared.heap.allocations := by
  obtain ⟨heap, grows, allocations, _, runs⟩ := perform_slice recalls denotes executor first last
  refine ⟨{ shared with heap }, fun assembly position => ?_, grows, allocations⟩
  rw [runs, if_pos whole, ← push_eq stack]
  rfl

theorem gives_slice_part (recalls : shared.heap.Recalls) (denotes : shared.heap.Denotes word text)
    (stack : executor.eval.items.size < executor.eval.capacity)
    (numbers : shared.heap.slots.size + 1 < 2 ^ 32)
    (cut : Text.cutBounds text.size first.toInt last.toInt ≠ (0, text.size))
    (room : shared.heap.hasRoom
      (Heap.headerSize + (Text.part text first.toInt last.toInt).size) = true) :
    ∃ part later, Gives .slice executor shared [word, .ofInt first, .ofInt last] part later ∧
      later.heap.Denotes part (Text.part text first.toInt last.toInt) ∧
      shared.heap.Grows later.heap 1
        (Heap.headerSize + (Text.part text first.toInt last.toInt).size) ∧
      later.heap.allocations = shared.heap.allocations + 1 := by
  obtain ⟨heap, grows, allocations, same, runs⟩ :=
    perform_slice recalls denotes executor first last
  have slots := grows.slots
  have left := room
  rw [← same] at left
  obtain ⟨part, later, pushed, shown, more, counted⟩ := @pushString_eq executor
    { shared with heap } _ grows.recalls stack (by dsimp only; omega) left
  refine ⟨part, later, fun assembly position => ?_, shown, ?_, counted.trans (by rw [allocations])⟩
  · rw [runs, if_neg cut]
    exact pushed
  · exact (grows.trans more).weaken (by omega) (by omega)

/-- Without room for a new string a slice ends execution. -/
theorem slice_fails (recalls : shared.heap.Recalls) (denotes : shared.heap.Denotes word text)
    (cut : Text.cutBounds text.size first.toInt last.toInt ≠ (0, text.size))
    (full : shared.heap.hasRoom
      (Heap.headerSize + (Text.part text first.toInt last.toInt).size) = false) :
    ∃ later, later.heap.allocations = shared.heap.allocations ∧
      ∀ assembly position, perform assembly .slice position
          ⟨executor.withOperands [word, .ofInt first, .ofInt last], shared⟩ =
        .ok () ⟨executor.fail .allocFailed, later⟩ := by
  obtain ⟨heap, _, allocations, same, runs⟩ := perform_slice recalls denotes executor first last
  refine ⟨{ shared with heap }, allocations, fun assembly position => ?_⟩
  have none : heap.allocate? (.string (Text.part text first.toInt last.toInt)) = none := by
    rw [Heap.allocate?, same]
    exact if_neg (by rw [Payload.size, full]; exact Bool.false_ne_true)
  rw [runs, if_neg cut]
  exact @pushNew_eq_fail ⟨executor, { shared with heap }⟩ _ none

theorem gives_slice (recalls : shared.heap.Recalls) (denotes : shared.heap.Denotes word text)
    (stack : executor.eval.items.size < executor.eval.capacity)
    (numbers : shared.heap.slots.size + 1 < 2 ^ 32)
    (room : shared.heap.hasRoom (Heap.headerSize + text.size) = true) (first last : Int32) :
    ∃ part later, Gives .slice executor shared [word, .ofInt first, .ofInt last] part later ∧
      later.heap.Denotes part (Text.part text first.toInt last.toInt) ∧
      shared.heap.Grows later.heap 1 (Heap.headerSize + text.size) := by
  have bounds := Text.cutBounds_le text.size first.toInt last.toInt
  have smaller : (Text.part text first.toInt last.toInt).size ≤ text.size := by
    rw [Text.size_part]
    omega
  by_cases whole : Text.cutBounds text.size first.toInt last.toInt = (0, text.size)
  · obtain ⟨later, gives, grows, _⟩ := gives_slice_whole recalls denotes stack whole
    refine ⟨word, later, gives, ?_, grows.weaken (by omega) (by omega)⟩
    rw [Text.part_whole whole]
    exact grows.denotes _ _ denotes
  · have enough : shared.heap.hasRoom
        (Heap.headerSize + (Text.part text first.toInt last.toInt).size) = true := by
      apply (Heap.Grows.refl recalls).hasRoom room
      omega
    obtain ⟨part, later, gives, shown, grows, _⟩ :=
      gives_slice_part recalls denotes stack numbers whole enough
    exact ⟨part, later, gives, shown, grows.weaken (Nat.le_refl _) (by omega)⟩

/-- Two strings one after the other are a new one. -/
theorem gives_concat (recalls : shared.heap.Recalls) {left right : Word} {first second : Bytes}
    (leftDenotes : shared.heap.Denotes left first) (rightDenotes : shared.heap.Denotes right second)
    (stack : executor.eval.items.size < executor.eval.capacity)
    (numbers : shared.heap.slots.size + 1 < 2 ^ 32)
    (room : shared.heap.hasRoom (Heap.headerSize + (first ++ second).size) = true) :
    ∃ whole later, Gives .concat executor shared [left, right] whole later ∧
      later.heap.Denotes whole (first ++ second) := by
  obtain ⟨middle, readRight, growsRight, _, sameRight⟩ :=
    @text_eq (executor.withOperands [left]) shared right second recalls rightDenotes
  obtain ⟨heap, readLeft, growsLeft, _, sameLeft⟩ :=
    @text_eq executor { shared with heap := middle } left first growsRight.recalls
      (growsRight.denotes _ _ leftDenotes)
  have slots := (growsRight.trans growsLeft).slots
  rw [← sameRight, ← sameLeft] at room
  obtain ⟨whole, later, pushed, shown, _⟩ := @pushString_eq executor { shared with heap } _
    growsLeft.recalls stack (by dsimp only; omega) room
  refine ⟨whole, later, fun assembly position => ?_, shown⟩
  change (popText >>= fun _ => popText >>= _) _ = _
  have right : popText ⟨executor.withOperands [left, right], shared⟩ =
      .ok second ⟨executor.withOperands [left], { shared with heap := middle }⟩ := by
    unfold popText
    rw [Evaluation.exec_bind (Evaluation.exec_pop rfl)]
    exact readRight
  have left : popText ⟨executor.withOperands [left], { shared with heap := middle }⟩ =
      .ok first ⟨executor, { shared with heap }⟩ := by
    unfold popText
    rw [Evaluation.exec_bind (Evaluation.exec_pop rfl)]
    exact readLeft
  rw [Evaluation.exec_bind right, Evaluation.exec_bind left]
  exact pushed

theorem gives_index (recalls : shared.heap.Recalls) (denotes : shared.heap.Denotes word text)
    (stack : executor.eval.items.size < executor.eval.capacity) (position : Int32) :
    ∃ later, Gives .index executor shared [word, .ofInt position]
      (.ofInt (Int32.ofNat (textIndex text position).toNat)) later := by
  obtain ⟨heap, read, _⟩ := @text_eq executor shared word text recalls denotes
  refine ⟨{ shared with heap }, fun assembly place => ?_⟩
  have popped : popText ⟨executor.withOperands [word], shared⟩ =
      .ok text ⟨executor, { shared with heap }⟩ := by
    unfold popText
    rw [Evaluation.exec_bind (Evaluation.exec_pop rfl)]
    exact read
  change (popInt >>= fun position => popText >>= fun text =>
    pushInt (Int32.ofNat (textIndex text position).toNat)) _ = _
  rw [Evaluation.exec_bind (popInt_push rfl)]
  change (popText >>= _) ⟨executor.withOperands [word], shared⟩ = _
  rw [Evaluation.exec_bind popped, ← push_eq stack]
  rfl

/-! ## Laws -/

theorem toInt_ofNat {count : Nat} (short : count < 2 ^ 31) : (Int32.ofNat count).toInt = count :=
  Int32.toInt_ofNat_of_lt short

/-- The string of a text is put together again from the slices before and after a place. -/
theorem gives_split (recalls : shared.heap.Recalls) (denotes : shared.heap.Denotes word text)
    (short : text.size < 2 ^ 31) (stack : executor.eval.items.size < executor.eval.capacity)
    (numbers : shared.heap.slots.size + 3 < 2 ^ 32)
    (room : shared.heap.hasRoom (3 * (Heap.headerSize + text.size)) = true) (place : Int32) :
    ∃ left one right two whole three,
      Gives .slice executor shared [word, .ofInt 0, .ofInt place] left one ∧
      Gives .slice executor one [word, .ofInt place, .ofInt (Int32.ofNat text.size)] right two ∧
      Gives .concat executor two [left, right] whole three ∧
      three.heap.Denotes whole text := by
  have roomOne : shared.heap.hasRoom (Heap.headerSize + text.size) = true :=
    (Heap.Grows.refl recalls).hasRoom room (by omega)
  obtain ⟨left, one, givesLeft, leftDenotes, growsOne⟩ :=
    gives_slice recalls denotes stack (by omega) roomOne 0 place
  have slotsOne := growsOne.slots
  have roomTwo : one.heap.hasRoom (Heap.headerSize + text.size) = true :=
    growsOne.hasRoom room (by omega)
  obtain ⟨right, two, givesRight, rightDenotes, growsTwo⟩ :=
    gives_slice growsOne.recalls (growsOne.denotes _ _ denotes) stack (by omega) roomTwo place
      (Int32.ofNat text.size)
  have slotsTwo := growsTwo.slots
  have joined : Text.part text (0 : Int32).toInt place.toInt ++
      Text.part text place.toInt (Int32.ofNat text.size).toInt = text := by
    rw [toInt_ofNat short, Int32.toInt_zero]
    exact Text.part_append_part text place.toInt
  have roomThree : two.heap.hasRoom (Heap.headerSize + text.size) = true :=
    (growsOne.trans growsTwo).hasRoom room (by omega)
  rw [← joined] at roomThree
  obtain ⟨whole, three, givesWhole, wholeDenotes⟩ :=
    gives_concat growsTwo.recalls (growsTwo.denotes _ _ leftDenotes) rightDenotes stack (by omega)
      roomThree
  rw [joined] at wholeDenotes
  exact ⟨left, one, right, two, whole, three, givesLeft, givesRight, givesWhole, wholeDenotes⟩

/-- A slice of a slice has the text of one slice, between the bounds of the inner one. -/
theorem gives_inner (recalls : shared.heap.Recalls) (denotes : shared.heap.Denotes word text)
    (short : text.size < 2 ^ 31) (stack : executor.eval.items.size < executor.eval.capacity)
    (numbers : shared.heap.slots.size + 3 < 2 ^ 32)
    (room : shared.heap.hasRoom (3 * (Heap.headerSize + text.size)) = true)
    (first last start stop : Int32) :
    let bounds :=
      Text.innerBounds text.size first.toInt last.toInt start.toInt stop.toInt
    ∃ part one inner two direct three found,
      Gives .slice executor shared [word, .ofInt first, .ofInt last] part one ∧
      Gives .slice executor one [part, .ofInt start, .ofInt stop] inner two ∧
      Gives .slice executor shared
        [word, .ofInt (Int32.ofNat bounds.1), .ofInt (Int32.ofNat bounds.2)] direct three ∧
      two.heap.Denotes inner found ∧ three.heap.Denotes direct found := by
  intro bounds
  have roomOne : shared.heap.hasRoom (Heap.headerSize + text.size) = true :=
    (Heap.Grows.refl recalls).hasRoom room (by omega)
  obtain ⟨part, one, givesPart, partDenotes, growsOne⟩ :=
    gives_slice recalls denotes stack (by omega) roomOne first last
  have slotsOne := growsOne.slots
  have outer := Text.cutBounds_le text.size first.toInt last.toInt
  have smaller := Text.size_part text first.toInt last.toInt
  have roomTwo : one.heap.hasRoom
      (Heap.headerSize + (Text.part text first.toInt last.toInt).size) = true :=
    growsOne.hasRoom room (by omega)
  obtain ⟨inner, two, givesInner, innerDenotes, _⟩ :=
    gives_slice growsOne.recalls partDenotes stack (by omega) roomTwo start stop
  obtain ⟨direct, three, givesDirect, directDenotes, _⟩ :=
    gives_slice recalls denotes stack (by omega) roomOne (Int32.ofNat bounds.1)
      (Int32.ofNat bounds.2)
  have inside : bounds.1 ≤ bounds.2 ∧ bounds.2 ≤ text.size := Text.innerBounds_le _ _ _ _ _
  rw [toInt_ofNat (by omega), toInt_ofNat (by omega), ← Text.part_part] at directDenotes
  exact ⟨part, one, inner, two, direct, three, _, givesPart, givesInner, givesDirect, innerDenotes,
    directDenotes⟩

theorem gives_index_slice (recalls : shared.heap.Recalls) (denotes : shared.heap.Denotes word text)
    (stack : executor.eval.items.size < executor.eval.capacity)
    (numbers : shared.heap.slots.size + 3 < 2 ^ 32)
    (room : shared.heap.hasRoom (3 * (Heap.headerSize + text.size)) = true)
    (first last position : Int32) :
    let bounds := Text.cutBounds text.size first.toInt last.toInt
    let byte := if 0 ≤ position.toInt ∧ bounds.1 + position.toInt < bounds.2
      then text.byteAt (bounds.1 + position.toInt.toNat) else 0
    ∃ part one two, Gives .slice executor shared [word, .ofInt first, .ofInt last] part one ∧
      Gives .index executor one [part, .ofInt position] (.ofInt (Int32.ofNat byte.toNat)) two := by
  intro bounds byte
  have roomOne : shared.heap.hasRoom (Heap.headerSize + text.size) = true :=
    (Heap.Grows.refl recalls).hasRoom room (by omega)
  obtain ⟨part, one, givesPart, partDenotes, grows⟩ :=
    gives_slice recalls denotes stack (by omega) roomOne first last
  obtain ⟨two, givesByte⟩ := gives_index grows.recalls partDenotes stack position
  rw [Text.textIndex_part] at givesByte
  exact ⟨part, one, two, givesPart, givesByte⟩

/--
What slices, concatenations and indexes do with a string of fewer than two to the power of 31 bytes,
whatever the bounds. A slice is the string itself if its bounds, cut to the text, are those of the
whole text; otherwise it is a new string of the bytes between them, and execution ends if there is
no room for it. With room for their copies, the slices before and after a place make up the string,
a slice of a slice has the text of one slice, and an index into a slice finds the byte of the string
there, or zero if the slice does not reach that far.
-/
theorem slicing_laws (recalls : shared.heap.Recalls) (denotes : shared.heap.Denotes word text)
    (short : text.size < 2 ^ 31) (stack : executor.eval.items.size < executor.eval.capacity)
    (numbers : shared.heap.slots.size + 3 < 2 ^ 32) :
    (∀ first last : Int32,
      let bounds := Text.cutBounds text.size first.toInt last.toInt
      let part := text.extract bounds.1 bounds.2
      let operands := [word, .ofInt first, .ofInt last]
      (bounds = (0, text.size) → part = text ∧ ∃ later,
        Gives .slice executor shared operands word later ∧ later.heap.Denotes word text ∧
          later.heap.allocations = shared.heap.allocations) ∧
      (bounds ≠ (0, text.size) → shared.heap.hasRoom (Heap.headerSize + part.size) = true →
        ∃ made later, Gives .slice executor shared operands made later ∧
          later.heap.Denotes made part ∧
          later.heap.allocations = shared.heap.allocations + 1) ∧
      (bounds ≠ (0, text.size) → shared.heap.hasRoom (Heap.headerSize + part.size) = false →
        ∃ later, later.heap.allocations = shared.heap.allocations ∧ ∀ assembly position,
          perform assembly .slice position ⟨executor.withOperands operands, shared⟩ =
            .ok () ⟨executor.fail .allocFailed, later⟩)) ∧
    (shared.heap.hasRoom (3 * (Heap.headerSize + text.size)) = true →
      (∀ place : Int32, ∃ left one right two whole three,
        Gives .slice executor shared [word, .ofInt 0, .ofInt place] left one ∧
        Gives .slice executor one [word, .ofInt place, .ofInt (Int32.ofNat text.size)] right two ∧
        Gives .concat executor two [left, right] whole three ∧
        three.heap.Denotes whole text) ∧
      (∀ first last start stop : Int32,
        let bounds := Text.innerBounds text.size first.toInt last.toInt start.toInt stop.toInt
        ∃ part one inner two direct three found,
          Gives .slice executor shared [word, .ofInt first, .ofInt last] part one ∧
          Gives .slice executor one [part, .ofInt start, .ofInt stop] inner two ∧
          Gives .slice executor shared
            [word, .ofInt (Int32.ofNat bounds.1), .ofInt (Int32.ofNat bounds.2)] direct three ∧
          two.heap.Denotes inner found ∧ three.heap.Denotes direct found) ∧
      (∀ first last position : Int32,
        let bounds := Text.cutBounds text.size first.toInt last.toInt
        let byte := if 0 ≤ position.toInt ∧ bounds.1 + position.toInt < bounds.2
          then text.byteAt (bounds.1 + position.toInt.toNat) else 0
        ∃ part one two,
          Gives .slice executor shared [word, .ofInt first, .ofInt last] part one ∧
          Gives .index executor one [part, .ofInt position] (.ofInt (Int32.ofNat byte.toNat))
            two)) := by
  refine ⟨fun first last => ⟨fun whole => ?_, fun cut room => ?_, fun cut full => ?_⟩,
    fun room => ⟨gives_split recalls denotes short stack numbers room,
      gives_inner recalls denotes short stack numbers room,
      gives_index_slice recalls denotes stack numbers room⟩⟩
  · obtain ⟨later, gives, grows, allocations⟩ := gives_slice_whole recalls denotes stack whole
    exact ⟨Text.part_whole whole, later, gives, grows.denotes _ _ denotes, allocations⟩
  · obtain ⟨made, later, gives, shown, _, allocations⟩ :=
      gives_slice_part recalls denotes stack (by omega) cut room
    exact ⟨made, later, gives, shown, allocations⟩
  · exact slice_fails recalls denotes cut full

/-- A string and a link to it are cut at the link, and put together again. -/
theorem slicing_laws_linked :
    let start := ((Heap.new 0 0).allocate (.string (Bytes.ofList [97, 98]))).2
    let heap := (start.allocate (.link (.ofHandle (.make 1 0)) 99 none)).2
    let shared : Shared := { (default : Shared) with heap }
    let executor : Executor := { (default : Executor) with eval := { capacity := 3 } }
    let word := Word.ofHandle (.make 2 0)
    ∃ left one right two whole three,
      Gives .slice executor shared [word, .ofInt 0, .ofInt 2] left one ∧
      Gives .slice executor one [word, .ofInt 2, .ofInt 3] right two ∧
      Gives .concat executor two [left, right] whole three ∧
      three.heap.Denotes whole (Bytes.ofList [97, 98, 99]) := by
  intro start heap shared executor word
  have string : start.deref (.ofHandle (.make 1 0)) =
      .ok ⟨34, .string (Bytes.ofList [97, 98])⟩ := by decide
  have first : heap.deref (.ofHandle (.make 1 0)) =
      .ok ⟨34, .string (Bytes.ofList [97, 98])⟩ := by decide
  have second : heap.deref word = .ok ⟨40, .link (.ofHandle (.make 1 0)) 99 none⟩ := by decide
  have recalls : heap.Recalls :=
    ((Heap.recalls_new 0 0).allocate (by decide) (Heap.admits_string _)).allocate (by decide)
      (Heap.admits_link 99 (.string ⟨_, string⟩))
  have denotes : heap.Denotes word (Bytes.ofList [97, 98, 99]) :=
    .link ⟨_, second⟩ (.string ⟨_, first⟩)
  obtain ⟨_, laws⟩ := @slicing_laws executor shared word _ recalls denotes (by decide) (by decide)
    (by decide)
  exact (laws (by decide)).1 2

end Exec

end WordMachine
