import WordMachine.Machine.TextStorage
import WordMachine.Proofs.ByteStrings

/-!
Buffers and their spans. A text is put together in a buffer of its own, and what was in other
buffers stays as it was; what an older span shows is the same before and after.
-/

namespace WordMachine

namespace Storage

variable {before storage after : Storage} {span : Span} {text more : Bytes}

/-! ## Buffers -/

/-- Whether all buffers of one storage are still in another one, as they were. -/
def Keeps (before after : Storage) : Prop :=
  ∀ (number : Nat) (held : Bytes), before.buffers[number]? = some held →
    after.buffers[number]? = some held

theorem Keeps.refl (storage : Storage) : storage.Keeps storage :=
  fun _ _ found => found

theorem Keeps.trans (first : before.Keeps storage) (second : storage.Keeps after) :
    before.Keeps after :=
  fun number held found => second number held (first number held found)

/-- Whether a span is inside its buffer. -/
def Fits (storage : Storage) (span : Span) : Prop :=
  ∃ held, storage.buffers[span.buffer]? = some held ∧ span.start + span.length ≤ held.size

theorem Fits.keeps (fits : storage.Fits span) (keeps : storage.Keeps after) : after.Fits span := by
  obtain ⟨held, found, inside⟩ := fits
  exact ⟨held, keeps _ _ found, inside⟩

theorem Keeps.bytes_eq (keeps : storage.Keeps after) (fits : storage.Fits span) :
    after.bytes span = storage.bytes span := by
  obtain ⟨held, found, inside⟩ := fits
  unfold bytes
  rw [keeps _ _ found, found]

theorem Fits.size_bytes (fits : storage.Fits span) : (storage.bytes span).size = span.length := by
  obtain ⟨held, found, inside⟩ := fits
  unfold bytes
  rw [found, Option.getD_some, ByteArray.size_extract]
  omega

/-- A part of a span shows that part of what the span shows. -/
theorem Fits.cut (fits : storage.Fits span) {first last : Nat} (ordered : first ≤ last)
    (inside : last ≤ span.length) :
    storage.Fits (span.cut first last) ∧
      storage.bytes (span.cut first last) = (storage.bytes span).extract first last := by
  obtain ⟨held, found, bound⟩ := fits
  refine ⟨⟨held, found, ?_⟩, ?_⟩
  · change span.start + first + (last - first) ≤ held.size
    omega
  · unfold bytes Span.cut
    dsimp only
    rw [found, Option.getD_some, ByteArray.extract_extract]
    congr 1
    omega

/-! ## Texts that are put together -/

/-- A span that is alone in a buffer which was not there before, and shows a text. -/
structure Draft (before storage : Storage) (span : Span) (text : Bytes) : Prop where
  fresh : before.buffers.size ≤ span.buffer
  keeps : before.Keeps storage
  start : span.start = 0
  length : span.length = text.size
  holds : ∃ held, storage.buffers[span.buffer]? = some held ∧ held.size = span.capacity ∧
    held.extract 0 span.length = text

theorem Draft.bytes_eq (draft : Draft before storage span text) : storage.bytes span = text := by
  obtain ⟨held, found, _, shown⟩ := draft.holds
  unfold bytes
  rw [found, draft.start, Nat.zero_add]
  exact shown

theorem Draft.fits (draft : Draft before storage span text) : storage.Fits span := by
  obtain ⟨held, found, _, shown⟩ := draft.holds
  refine ⟨held, found, ?_⟩
  have size := congrArg ByteArray.size shown
  rw [ByteArray.size_extract, ← draft.length] at size
  rw [draft.start]
  omega

theorem Draft.of_eq {other : Bytes} (draft : Draft before storage span text) (same : text = other) :
    Draft before storage span other :=
  same ▸ draft

theorem draft_make (storage : Storage) {length capacity : Nat} (inside : length ≤ capacity) :
    Draft storage (storage.make length capacity).2 (storage.make length capacity).1
      ((Bytes.replicate capacity 0).extract 0 length) := by
  have size : (Bytes.replicate capacity 0).size = capacity := Array.size_replicate
  refine ⟨Nat.le_refl _, ?_, rfl, ?_, Bytes.replicate capacity 0, ?_, size, rfl⟩
  · intro number held found
    obtain ⟨bound, _⟩ := Array.getElem?_eq_some_iff.1 found
    change (storage.buffers.push _)[number]? = some held
    rw [Array.getElem?_push_lt bound, ← found, Array.getElem?_eq_getElem bound]
  · rw [ByteArray.size_extract, size]
    change length = _
    omega
  · exact Array.getElem?_push_size

theorem getElem?_write (storage : Storage) (number place other : Nat) (text : Bytes) :
    (storage.write number place text).buffers[other]? =
      if number = other then (storage.buffers[other]?).map fun held =>
        held.extract 0 place ++ text ++ held.extract (place + text.size) held.size
      else storage.buffers[other]? :=
  Array.getElem?_modify ..

theorem Draft.write (draft : Draft before storage span text) (more : Bytes) {place : Nat}
    (within : place ≤ span.length) (room : place + more.size ≤ span.capacity) :
    Draft before (storage.write span.buffer place more) { span with length := place + more.size }
      (text.extract 0 place ++ more) := by
  obtain ⟨held, found, size, shown⟩ := draft.holds
  have inside := draft.length
  have kept : (held.extract 0 place).size = place := by
    rw [ByteArray.size_extract, size]
    omega
  have same : text.extract 0 place = held.extract 0 place := by
    rw [← shown, ByteArray.extract_extract]
    congr 1
    omega
  refine ⟨draft.fresh, ?_, draft.start, ?_, held.extract 0 place ++ more ++
    held.extract (place + more.size) held.size, ?_, ?_, ?_⟩
  · intro number other earlier
    rw [getElem?_write, if_neg ?_]
    · exact draft.keeps _ _ earlier
    · intro equal
      obtain ⟨bound, _⟩ := Array.getElem?_eq_some_iff.1 earlier
      have fresh := draft.fresh
      omega
  · rw [same, ByteArray.size_append, kept]
  · dsimp only
    rw [getElem?_write, if_pos rfl, found]
    rfl
  · dsimp only
    rw [ByteArray.size_append, ByteArray.size_append, kept, ByteArray.size_extract]
    omega
  · rw [same]
    exact ByteArray.extract_append_eq_left (by rw [ByteArray.size_append, kept])

theorem Draft.append (draft : Draft before storage span text) (more : Bytes)
    (room : span.length + more.size ≤ span.capacity) :
    Draft before (storage.append span more).2 (storage.append span more).1 (text ++ more) ∧
      (storage.append span more).1.capacity = span.capacity := by
  have appended : storage.append span more =
      ({ span with length := span.length + more.size },
        storage.write span.buffer (span.start + span.length) more) := if_pos room
  have written := draft.write more (Nat.le_refl span.length) room
  rw [draft.length, ByteArray.extract_zero_size, ← draft.length] at written
  have place : span.start + span.length = span.length := by rw [draft.start, Nat.zero_add]
  rw [appended, place]
  exact ⟨written, rfl⟩

theorem Draft.appendEach (tail : List UInt8) (draft : Draft before storage span text)
    (room : span.length + tail.length ≤ span.capacity) :
    Draft before (storage.appendEach span tail).2 (storage.appendEach span tail).1
      (tail.foldl ByteArray.push text) := by
  induction tail generalizing storage span text with
  | nil => exact draft
  | cons byte rest ih =>
    have single : (Bytes.singleton byte).size = 1 := rfl
    rw [List.length_cons] at room
    obtain ⟨longer, capacity⟩ := draft.append (Bytes.singleton byte) (by omega)
    have length : (storage.append span (Bytes.singleton byte)).1.length = span.length + 1 := by
      rw [longer.length, ByteArray.size_append, single, draft.length]
    have pushed : text ++ Bytes.singleton byte = text.push byte := by
      apply ByteArray.ext
      rw [ByteArray.data_append]
      exact Array.append_singleton
    rw [pushed] at longer
    refine ih longer ?_
    rw [length, capacity]
    omega

theorem draft_fill (storage : Storage) (text : Bytes) {capacity : Nat}
    (room : text.size ≤ capacity) :
    Draft storage
      ((storage.make text.size capacity).2.write (storage.make text.size capacity).1.buffer 0 text)
      (storage.make text.size capacity).1 text := by
  have written := (draft_make storage room).write text (Nat.zero_le _)
    (by rw [Nat.zero_add]; exact room)
  have nothing : ((Bytes.replicate capacity 0).extract 0 text.size).extract 0 0 =
      ByteArray.empty := by
    rw [ByteArray.extract_extract]
    simp
  rw [nothing, ByteArray.empty_append, Nat.zero_add] at written
  exact written

theorem draft_hold (storage : Storage) (text : Bytes) :
    Draft storage (storage.hold text).2 (storage.hold text).1 text :=
  draft_fill storage text (Nat.le_refl _)

theorem draft_flatten (fits : storage.Fits span) (tail : List UInt8) :
    Draft storage (storage.flatten span tail).2 (storage.flatten span tail).1
      (tail.foldl ByteArray.push (storage.bytes span)) := by
  have size := fits.size_bytes
  have room : (storage.bytes span).size ≤ span.length + tail.length := by omega
  have filled := draft_fill storage (storage.bytes span) room
  have made := draft_make storage (Nat.le_add_right span.length tail.length)
  have shown := made.keeps.bytes_eq fits
  rw [size] at filled
  have each := filled.appendEach tail (Nat.le_refl _)
  rw [← shown] at each ⊢
  exact each

theorem draft_join {left right : Span} (first : storage.Fits left) (second : storage.Fits right) :
    Draft storage (storage.join left right).2 (storage.join left right).1
      (storage.bytes left ++ storage.bytes right) := by
  have made := draft_make storage (Nat.zero_le (left.length + right.length))
  have shown := made.keeps.bytes_eq first
  have room : (storage.make 0 (left.length + right.length)).1.length +
      ((storage.make 0 (left.length + right.length)).2.bytes left).size ≤
        (storage.make 0 (left.length + right.length)).1.capacity := by
    rw [shown, first.size_bytes]
    change 0 + left.length ≤ left.length + right.length
    omega
  obtain ⟨half, capacity⟩ := made.append _ room
  have shows : (Bytes.replicate (left.length + right.length) 0).extract 0 0 ++
      (storage.make 0 (left.length + right.length)).2.bytes left = storage.bytes left := by
    rw [shown, ByteArray.extract_same]
    exact ByteArray.empty_append
  replace half := half.of_eq shows
  have rest := half.keeps.bytes_eq second
  rw [← rest]
  refine (half.append _ ?_).1
  rw [half.length, first.size_bytes, capacity, rest, second.size_bytes]
  exact Nat.le_refl _

end Storage

end WordMachine
