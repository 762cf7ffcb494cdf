import WordMachine.Proofs.Operands
import WordMachine.Proofs.StringTexts
import WordMachine.Proofs.TextBuffers

/-!
Strings whose texts are in buffers. A text is put together before a span of it is given out, and
nothing is written to its buffer afterwards; so what was read once stays as it was, for as long as
anyone looks at it. Works on strings do to the heap what an executor does.
-/

namespace WordMachine

namespace Backing

variable {backing : Backing} {word : Word} {span : Span} {text : Bytes}
variable {payload : Payload} {storage : Storage}

/-! ## Heaps with their buffers -/

/-- The text that an object has, be it its own or that of a link that was asked for it. -/
def keptText? : Payload → Option Bytes
  | .string text => some text
  | .link _ _ flat => flat
  | _ => none

def Shows (storage : Storage) (span? : Option Span) (text : Bytes) : Prop :=
  ∃ span, span? = some span ∧ storage.Fits span ∧ storage.bytes span = text

theorem Shows.keeps {before after : Storage} {span? : Option Span} (shows : Shows before span? text)
    (keeps : before.Keeps after) : Shows after span? text := by
  obtain ⟨span, same, fits, shown⟩ := shows
  exact ⟨span, same, fits.keeps keeps, (keeps.bytes_eq fits).trans shown⟩

theorem shows_of_draft {before : Storage} (draft : Storage.Draft before storage span text) :
    Shows storage (some span) text :=
  ⟨span, rfl, draft.fits, draft.bytes_eq⟩

/-- A heap whose texts are all in buffers. -/
structure Sound (backing : Backing) : Prop where
  recalls : backing.heap.Recalls
  backs : ∀ word payload text, backing.heap.Contains word payload → keptText? payload = some text →
    Shows backing.storage (backing.spans word.toHandle.index) text

theorem sound_new (interval limit : Int) : (new interval limit).Sound where
  recalls := Heap.recalls_new interval limit
  backs := fun _ _ _ contains => absurd contains.position_lt.1 (Nat.not_lt_zero _)

theorem Sound.store (sound : backing.Sound) (keeps : backing.storage.Keeps storage) :
    ({ backing with storage } : Backing).Sound where
  recalls := sound.recalls
  backs := fun word payload text contains kept =>
    (sound.backs word payload text contains kept).keeps keeps

theorem Sound.collect (sound : backing.Sound) (roots : List Word) :
    (backing.collect roots).Sound where
  recalls := sound.recalls.collect roots
  backs := fun word payload text contains kept =>
    sound.backs word payload text
      ((Heap.contains_collect sound.recalls.wellFormed).1 contains).1 kept

theorem Sound.allocate (sound : backing.Sound) (room : backing.heap.slots.size + 1 < 2 ^ 32)
    (admits : backing.heap.Admits payload) {span? : Option Span}
    (shows : ∀ text, keptText? payload = some text → Shows backing.storage span? text) :
    (({ backing with heap := (backing.heap.allocate payload).2 }).setSpan
      (backing.heap.allocate payload).1.toHandle.index span?).Sound := by
  have allocated := Heap.allocate_allocated sound.recalls.wellFormed room payload
  refine ⟨sound.recalls.allocate room admits, ?_⟩
  intro word content text later kept
  unfold setSpan
  dsimp only
  split
  · next index =>
    cases later.of_index_eq allocated.contains_new index
    exact shows text kept
  · next index =>
    obtain ⟨isRef, size, found⟩ := Heap.contains_iff.1 later
    have before : backing.heap.lookup? word.toHandle = some ⟨size, content⟩ := by
      rw [← allocated.others _ (Or.inl index)]
      exact found
    exact sound.backs word content text (Heap.contains_iff.2 ⟨isRef, size, before⟩) kept

theorem Sound.remember (sound : backing.Sound) (denotes : backing.heap.Denotes word text)
    (draft : Storage.Draft backing.storage storage span text) :
    (({ backing with heap := backing.heap.remember word text, storage }).setSpan
      word.toHandle.index (some span)).Sound := by
  obtain ⟨made, contains⟩ := denotes.contains
  refine ⟨sound.recalls.remember denotes, ?_⟩
  intro other content known later kept
  obtain ⟨before, found, same⟩ := (Heap.contains_remember contains text).1 later
  unfold setSpan
  dsimp only
  split
  · next index =>
    have remembered : known = text := by
      rw [if_pos index] at same
      have here := denotes.of_index_eq found index.symm
      cases before with
      | string whole =>
        cases same
        cases kept
        exact (Heap.Denotes.string found).unique here rfl
      | link previous byte flat =>
        cases same
        cases kept
        rfl
      | _ =>
        cases same
        cases kept
    rw [remembered]
    exact shows_of_draft draft
  · next index =>
    rw [if_neg index] at same
    cases same
    exact (sound.backs other content known found kept).keeps draft.keeps

/-! ## Reading -/

theorem Sound.base_eq (sound : backing.Sound) {fuel : Nat} {tail rest : List UInt8} {whole : Bytes}
    (denotes : backing.heap.Denotes word whole)
    (walked : backing.heap.chainText fuel word tail = .ok (text, rest)) :
    ∃ span, backing.base fuel word tail = .ok (span, rest) ∧ backing.storage.Fits span ∧
      backing.storage.bytes span = text := by
  induction fuel generalizing word tail whole with
  | zero => cases walked
  | succ fuel ih =>
    cases denotes with
    | string contains =>
      obtain ⟨span, same, fits, shown⟩ := sound.backs _ _ _ contains rfl
      obtain ⟨size, found⟩ := contains
      unfold Heap.chainText at walked
      rw [found] at walked
      cases walked
      refine ⟨span, ?_, fits, shown⟩
      unfold base
      simp only [found, same]
    | @link _ previous byte flat inner contains linked =>
      cases flat with
      | some known =>
        obtain ⟨span, same, fits, shown⟩ := sound.backs _ _ _ contains rfl
        obtain ⟨size, found⟩ := contains
        unfold Heap.chainText at walked
        rw [found] at walked
        cases walked
        refine ⟨span, ?_, fits, shown⟩
        unfold base
        simp only [found, same]
      | none =>
        obtain ⟨size, found⟩ := contains
        unfold Heap.chainText at walked
        rw [found] at walked
        obtain ⟨span, walkedOn, fits, shown⟩ := ih linked walked
        refine ⟨span, ?_, fits, shown⟩
        unfold base
        simp only [found]
        exact walkedOn

/-- What goes on leaves buffers and texts as they are. -/
structure Progress (backing after : Backing) : Prop where
  sound : after.Sound
  keeps : backing.storage.Keeps after.storage
  denotes : ∀ word text, backing.heap.Denotes word text → after.heap.Denotes word text

theorem Progress.refl (sound : backing.Sound) : Progress backing backing :=
  ⟨sound, .refl _, fun _ _ denotes => denotes⟩

theorem Progress.trans {middle after : Backing} (first : Progress backing middle)
    (second : Progress middle after) : Progress backing after :=
  ⟨second.sound, first.keeps.trans second.keeps,
    fun word text denotes => second.denotes word text (first.denotes word text denotes)⟩

theorem exec_text_kept {session : Session} (contains : session.shared.heap.Contains word payload)
    (kept : keptText? payload = some text) : Exec.text word session = .ok text session := by
  have looked : ∀ {previous byte}, payload = .link previous byte (some text) →
      Exec.look (·.text word) session = .ok text session := by
    rintro previous byte rfl
    exact Evaluation.exec_look _ (Heap.text_of_spells (.remembered contains))
  obtain ⟨size, found⟩ := contains
  unfold Exec.text
  rw [Evaluation.exec_bind (Evaluation.exec_look (·.deref word) found)]
  cases payload with
  | string whole =>
    cases kept
    rfl
  | link previous byte flat =>
    cases kept
    exact looked rfl
  | _ => cases kept

theorem exec_text_link {session : Session} {previous : Word} {byte : UInt8}
    (contains : session.shared.heap.Contains word (.link previous byte none))
    (read : session.shared.heap.text word = .ok text) :
    Exec.text word session =
      .ok text { session with
        shared := { session.shared with heap := session.shared.heap.remember word text } } := by
  obtain ⟨size, found⟩ := contains
  unfold Exec.text
  rw [Evaluation.exec_bind (Evaluation.exec_look (·.deref word) found)]
  dsimp only
  rw [Evaluation.exec_bind (Evaluation.exec_look (·.text word) read)]
  rfl

/-- What comes of reading a string. -/
structure Reads (backing : Backing) (word : Word) (text : Bytes) (span : Span) (after : Backing) :
    Prop where
  read : Backed.read word backing = .ok span after
  fits : after.storage.Fits span
  shown : after.storage.bytes span = text
  progress : Progress backing after
  denotes : ∀ other found, after.heap.Denotes other found ↔ backing.heap.Denotes other found
  size : after.heap.slots.size = backing.heap.slots.size
  /-- An executor gets the text, and its heap is the same then. -/
  machine : ∀ session : Session, session.shared.heap = backing.heap →
    Exec.text word session =
      .ok text { session with shared := { session.shared with heap := after.heap } }

theorem Sound.reads_kept (sound : backing.Sound) (contains : backing.heap.Contains word payload)
    (kept : keptText? payload = some text) : ∃ span, Reads backing word text span backing := by
  obtain ⟨span, same, fits, shown⟩ := sound.backs word payload text contains kept
  obtain ⟨size, found⟩ := contains
  refine ⟨span, ?_, fits, shown, .refl sound, fun _ _ => Iff.rfl, rfl, ?_⟩
  · unfold Backed.read
    cases payload with
    | string whole => simp only [found, same]
    | link previous byte flat =>
      cases kept
      simp only [found, same]
    | _ => cases kept
  · intro session here
    rw [← here] at found
    exact (exec_text_kept ⟨size, found⟩ kept).trans (by rw [← here])

theorem Sound.reads_link (sound : backing.Sound) {previous : Word} {byte : UInt8}
    (contains : backing.heap.Contains word (.link previous byte none))
    (linked : backing.heap.Denotes previous text) :
    ∃ span after, Reads backing word (text.push byte) span after := by
  have whole : backing.heap.Denotes word (text.push byte) := .link contains linked
  obtain ⟨found, tail, walked, joined⟩ :=
    Heap.chainText_of_spells (sound.recalls.spells linked) [] (backing.heap.slots.size + 1) [byte]
      List.nodup_nil (fun _ => nofun) (Nat.lt_succ_self _)
  obtain ⟨base, walkedBack, fits, shown⟩ := sound.base_eq linked walked
  have draft := Storage.draft_flatten fits tail
  rw [shown, joined] at draft
  change Storage.Draft _ _ _ (text.push byte) at draft
  generalize flattened : backing.storage.flatten base tail = made at draft
  obtain ⟨span, storage⟩ := made
  have same : storage.bytes span = text.push byte := draft.bytes_eq
  have remembered := sound.remember whole draft
  obtain ⟨size, object⟩ := contains
  have denotes : ∀ other found, (backing.heap.remember word (text.push byte)).Denotes other found ↔
      backing.heap.Denotes other found :=
    fun _ _ => Heap.denotes_remember ⟨size, object⟩
  refine ⟨span,
    ({ backing with heap := backing.heap.remember word (text.push byte), storage }).setSpan
      word.toHandle.index (some span),
    ?_, draft.fits, ?_, ⟨remembered, draft.keeps, ?_⟩, denotes, ?_, ?_⟩
  · unfold Backed.read
    simp only [object, walkedBack, flattened, same]
  · exact same
  · exact fun other found => (denotes other found).2
  · exact Array.size_modify ..
  · intro session here
    have read := sound.recalls.text_eq whole
    rw [← here] at object read
    exact (exec_text_link ⟨size, object⟩ read).trans (by rw [← here]; rfl)

theorem Sound.read (sound : backing.Sound) (denotes : backing.heap.Denotes word text) :
    ∃ span after, Reads backing word text span after := by
  cases denotes with
  | string contains =>
    obtain ⟨span, reads⟩ := sound.reads_kept contains rfl
    exact ⟨span, backing, reads⟩
  | @link _ previous byte flat inner contains linked =>
    cases flat with
    | none => exact sound.reads_link contains linked
    | some known =>
      have same := (sound.recalls.kept _ _ _ _ contains).unique (.link contains linked) rfl
      rw [← same]
      obtain ⟨span, reads⟩ := sound.reads_kept contains rfl
      exact ⟨span, backing, reads⟩

/-! ## Works -/

theorem bind_eq {α β : Type} {first : Backed α} {next : α → Backed β} {middle : Backing} {value : α}
    (done : first backing = .ok value middle) : (first >>= next) backing = next value middle := by
  change EStateM.bind first next backing = _
  simp only [EStateM.bind, done]

/-- The heap after an attempt to make an object. -/
def allocated (heap : Heap) (payload : Payload) : Heap :=
  if heap.hasRoom (Heap.headerSize + payload.size) then (heap.allocate payload).2 else heap

theorem progress_allocate? (sound : backing.Sound) (room : backing.heap.slots.size + 1 < 2 ^ 32)
    (admits : backing.heap.Admits payload) (span? : Option Span)
    (shows : ∀ text, keptText? payload = some text → Shows backing.storage span? text) :
    Progress backing (Backed.ending (Backed.allocate? payload span? backing)) ∧
      (Backed.ending (Backed.allocate? payload span? backing)).heap =
        allocated backing.heap payload := by
  unfold Backed.allocate? allocated
  by_cases space : backing.heap.hasRoom (Heap.headerSize + payload.size) = true
  · have made := Heap.allocate_allocated sound.recalls.wellFormed room payload
    rw [if_pos space, if_pos space]
    exact ⟨⟨sound.allocate room admits shows, .refl _, fun _ _ denotes => denotes.allocated made⟩,
      rfl⟩
  · rw [if_neg space, if_neg space]
    exact ⟨.refl sound, rfl⟩

theorem progress_string? (sound : backing.Sound) (room : backing.heap.slots.size + 1 < 2 ^ 32)
    (fits : backing.storage.Fits span) (shown : backing.storage.bytes span = text) :
    Progress backing (Backed.ending (Backed.string? span backing)) ∧
      (Backed.ending (Backed.string? span backing)).heap =
        allocated backing.heap (.string text) := by
  unfold Backed.string?
  rw [shown]
  refine progress_allocate? sound room (Heap.admits_string text) (some span) ?_
  rintro other ⟨⟩
  exact ⟨span, rfl, fits, shown⟩

theorem progress_store (sound : backing.Sound) (room : backing.heap.slots.size + 1 < 2 ^ 32)
    (put : Storage → Span × Storage)
    (draft : Storage.Draft backing.storage (put backing.storage).2 (put backing.storage).1 text) :
    Progress backing (Backed.ending ((Backed.store put >>= Backed.string?) backing)) ∧
      (Backed.ending ((Backed.store put >>= Backed.string?) backing)).heap =
        allocated backing.heap (.string text) := by
  have stored : Backed.store put backing =
      .ok (put backing.storage).1 { backing with storage := (put backing.storage).2 } := rfl
  rw [bind_eq stored]
  have kept := sound.store draft.keeps
  obtain ⟨progress, heap⟩ := progress_string? kept room draft.fits draft.bytes_eq
  exact ⟨⟨progress.sound, draft.keeps.trans progress.keeps, progress.denotes⟩, heap⟩

end Backing

namespace Exec

variable {session : Session} {below : Array Word}

/-! ### What executors do -/

theorem ending_pushNew_heap (payload : Payload) (session : Session) :
    (ending (pushNew payload session)).shared.heap =
      Backing.allocated session.shared.heap payload := by
  obtain ⟨executor, shared⟩ := session
  unfold Backing.allocated
  by_cases space : shared.heap.hasRoom (Heap.headerSize + payload.size) = true
  · have done : allocate? payload ⟨executor, shared⟩ =
        .ok (some (shared.allocate payload).1) ⟨executor, (shared.allocate payload).2⟩ := by
      unfold allocate?
      simp only [space, if_true]
    unfold pushNew
    rw [Evaluation.exec_bind done, if_pos space]
    exact Shared.log_heap _ _
  · have none : allocate? payload ⟨executor, shared⟩ = .ok none ⟨executor, shared⟩ := by
      unfold allocate?
      simp only [space]
      rfl
    unfold pushNew
    rw [Evaluation.exec_bind none, if_neg space]
    rfl

theorem popInt_push {value : Int32}
    (items : session.executor.eval.items = below.push (.ofInt value)) :
    popInt session = .ok value (Evaluation.withOperands session below) := by
  unfold popInt
  rw [Evaluation.exec_bind (Evaluation.exec_pop items), Word.toInt_ofInt]
  rfl

/-- A string that is on top is taken off and read. -/
theorem popText_push {backing after : Backing} {word : Word} {text : Bytes} {span : Span}
    (reads : Backing.Reads backing word text span after) (here : session.shared.heap = backing.heap)
    (items : session.executor.eval.items = below.push word) :
    ∃ later, popText session = .ok text later ∧ later.shared.heap = after.heap ∧
      later.executor.eval.items = below := by
  unfold popText
  rw [Evaluation.exec_bind (Evaluation.exec_pop items)]
  exact ⟨_, reads.machine _ here, rfl, rfl⟩

end Exec

namespace TextWork

variable {backing : Backing}
variable {text : Bytes} {word : Word}

/-- Whether a work can be done: it is on texts, and slots have numbers. -/
structure Applies (work : TextWork) (heap : Heap) : Prop where
  texts : ∀ word ∈ work.strings, ∃ text, heap.Denotes word text
  room : heap.slots.size + 1 < 2 ^ 32

/-- What a work leads to, for a heap and its buffers and for an executor. -/
structure Goes (work : TextWork) (backing after : Backing) : Prop where
  progress : Backing.Progress backing after
  machine : ∀ (session : Session) (below : Array Word), session.shared.heap = backing.heap →
    session.executor.eval.items = work.operands.foldl Array.push below →
    (Exec.ending (work.computation session)).shared.heap = after.heap

theorem goes_string (sound : backing.Sound) (room : backing.heap.slots.size + 1 < 2 ^ 32)
    (text : Bytes) : Goes (.string text) backing (after (.string text) backing) := by
  obtain ⟨progress, heap⟩ := Backing.progress_store sound room (·.hold text)
    (Storage.draft_hold backing.storage text)
  refine ⟨progress, ?_⟩
  intro session below here _
  change (Exec.ending (Exec.pushNew _ session)).shared.heap = _
  rw [Exec.ending_pushNew_heap, here]
  exact heap.symm

theorem goes_link (sound : backing.Sound) (room : backing.heap.slots.size + 1 < 2 ^ 32)
    {previous : Word} (denotes : backing.heap.Denotes previous text) (byte : UInt8) :
    Goes (.link previous byte) backing (after (.link previous byte) backing) := by
  obtain ⟨progress, heap⟩ := Backing.progress_allocate? sound room
    (Heap.admits_link byte denotes) none (fun _ => nofun)
  refine ⟨progress, ?_⟩
  intro session below here items
  have same : (Word.ofInt byte.toUInt32.toInt32).toByte = byte := by
    rw [Word.toByte_ofInt]
    simp
  have run : computation (.link previous byte) session =
      Exec.pushNew (.link previous byte none)
        (Evaluation.withOperands (Evaluation.withOperands session (below.push previous))
          below) := by
    change (do
      let byte := (← Exec.pop).toByte
      let word ← Exec.pop
      Exec.pushNew (.link word byte none)) session = _
    rw [Evaluation.exec_bind (Evaluation.exec_pop items)]
    rw [Evaluation.exec_bind (Evaluation.exec_pop rfl), same]
  rw [run, Exec.ending_pushNew_heap]
  change Backing.allocated session.shared.heap _ = _
  rw [here]
  exact heap.symm

theorem goes_read (sound : backing.Sound) (denotes : backing.heap.Denotes word text) :
    Goes (.read word) backing (after (.read word) backing) := by
  obtain ⟨span, next, reads⟩ := sound.read denotes
  have result : after (.read word) backing = next := by
    change Backed.ending ((Backed.read word >>= fun _ => pure (some word)) backing) = next
    rw [Backing.bind_eq reads.read]
    rfl
  rw [result]
  refine ⟨reads.progress, ?_⟩
  intro session below here items
  obtain ⟨later, popped, heap, _⟩ := Exec.popText_push reads here items
  change (Exec.ending ((Exec.popText >>= fun _ => pure ()) session)).shared.heap = _
  rw [Evaluation.exec_bind popped]
  exact heap

theorem clampRange_ordered (size : Nat) (first last : Int32) :
    (clampRange size first last).1 ≤ (clampRange size first last).2 ∧
      (clampRange size first last).2 ≤ size := by
  unfold clampRange
  dsimp only
  omega

theorem slice_eq {whole : Span} {middle : Backing}
    (reads : Backing.Reads backing word text whole middle) {first last : Int32} {session : Session}
    {below : Array Word} (here : session.shared.heap = backing.heap)
    (items : session.executor.eval.items =
      (operands (.slice word first last)).foldl Array.push below) :
    ∃ later : Session, later.shared.heap = middle.heap ∧
      computation (.slice word first last) session =
        (if (clampRange text.size first last).1 = 0 ∧
            (clampRange text.size first last).2 = text.size
          then Exec.push word
          else Exec.pushString (text.extract (clampRange text.size first last).1
            (clampRange text.size first last).2)) later := by
  have read := reads.machine (Evaluation.withOperands (Evaluation.withOperands
    (Evaluation.withOperands session ((below.push word).push (.ofInt first))) (below.push word))
    below) here
  change ∃ later : Session, later.shared.heap = middle.heap ∧ Exec.slice session = _
  unfold Exec.slice
  rw [Evaluation.exec_bind (Exec.popInt_push items), Evaluation.exec_bind (Exec.popInt_push rfl),
    Evaluation.exec_bind (Evaluation.exec_pop rfl), Evaluation.exec_bind read]
  exact ⟨_, rfl, rfl⟩

theorem goes_slice (sound : backing.Sound) (room : backing.heap.slots.size + 1 < 2 ^ 32)
    (denotes : backing.heap.Denotes word text) (first last : Int32) :
    Goes (.slice word first last) backing (after (.slice word first last) backing) := by
  obtain ⟨whole, middle, reads⟩ := sound.read denotes
  have size : whole.length = text.size := by
    rw [← reads.fits.size_bytes, reads.shown]
  obtain ⟨ordered, inside⟩ := clampRange_ordered text.size first last
  generalize bounds : clampRange text.size first last = range at ordered inside
  obtain ⟨start, stop⟩ := range
  have result : after (.slice word first last) backing = Backed.ending
      ((if start = 0 ∧ stop = text.size then pure (some word)
        else Backed.string? (whole.cut start stop)) middle) := by
    change Backed.ending ((Backed.read word >>= _) backing) = _
    rw [Backing.bind_eq reads.read, size, bounds]
  have slots := reads.size
  rw [result]
  by_cases same : start = 0 ∧ stop = text.size
  · rw [if_pos same]
    refine ⟨reads.progress, ?_⟩
    intro session below here items
    obtain ⟨later, heap, run⟩ := slice_eq reads here items
    rw [bounds, if_pos same] at run
    rw [run]
    exact heap
  · rw [if_neg same]
    obtain ⟨fits, shown⟩ := reads.fits.cut ordered (size ▸ inside)
    rw [reads.shown] at shown
    rw [← slots] at room
    obtain ⟨progress, heap⟩ := Backing.progress_string? reads.progress.sound room fits shown
    refine ⟨reads.progress.trans progress, ?_⟩
    intro session below here items
    obtain ⟨later, before, run⟩ := slice_eq reads here items
    rw [bounds, if_neg same] at run
    rw [run]
    change (Exec.ending (Exec.pushNew _ later)).shared.heap = _
    rw [Exec.ending_pushNew_heap, before]
    exact heap.symm

theorem goes_concat (sound : backing.Sound) (room : backing.heap.slots.size + 1 < 2 ^ 32)
    {left right : Word} {first second : Bytes} (leftDenotes : backing.heap.Denotes left first)
    (rightDenotes : backing.heap.Denotes right second) :
    Goes (.concat left right) backing (after (.concat left right) backing) := by
  obtain ⟨rightSpan, middle, readsRight⟩ := sound.read rightDenotes
  obtain ⟨leftSpan, next, readsLeft⟩ :=
    readsRight.progress.sound.read (readsRight.progress.denotes _ _ leftDenotes)
  have rightFits := readsRight.fits.keeps readsLeft.progress.keeps
  have draft := Storage.draft_join readsLeft.fits rightFits
  rw [readsLeft.shown, readsLeft.progress.keeps.bytes_eq readsRight.fits, readsRight.shown] at draft
  have result : after (.concat left right) backing =
      Backed.ending ((Backed.store (·.join leftSpan rightSpan) >>= Backed.string?) next) := by
    change Backed.ending ((Backed.read right >>= _) backing) = _
    rw [Backing.bind_eq readsRight.read, Backing.bind_eq readsLeft.read]
  rw [← readsRight.size, ← readsLeft.size] at room
  obtain ⟨progress, heap⟩ := Backing.progress_store readsLeft.progress.sound room
    (·.join leftSpan rightSpan) draft
  rw [result]
  refine ⟨readsRight.progress.trans (readsLeft.progress.trans progress), ?_⟩
  intro session below here items
  obtain ⟨one, rightPopped, oneHeap, oneItems⟩ := Exec.popText_push readsRight here items
  obtain ⟨two, leftPopped, twoHeap, _⟩ := Exec.popText_push readsLeft oneHeap oneItems
  have run : computation (.concat left right) session =
      Exec.pushNew (.string (first ++ second)) two := by
    change (Exec.popText >>= _) session = _
    rw [Evaluation.exec_bind rightPopped, Evaluation.exec_bind leftPopped]
    rfl
  rw [run, Exec.ending_pushNew_heap, twoHeap]
  exact heap.symm

theorem goes (sound : backing.Sound) {work : TextWork} (applies : work.Applies backing.heap) :
    Goes work backing (work.after backing) := by
  obtain ⟨texts, room⟩ := applies
  cases work with
  | string text => exact goes_string sound room text
  | link previous byte =>
    obtain ⟨text, denotes⟩ := texts previous (List.mem_singleton_self _)
    exact goes_link sound room denotes byte
  | slice word first last =>
    obtain ⟨text, denotes⟩ := texts word (List.mem_singleton_self _)
    exact goes_slice sound room denotes first last
  | concat left right =>
    obtain ⟨first, leftDenotes⟩ := texts left (by simp [strings])
    obtain ⟨second, rightDenotes⟩ := texts right (by simp [strings])
    exact goes_concat sound room leftDenotes rightDenotes
  | read word =>
    obtain ⟨text, denotes⟩ := texts word (List.mem_singleton_self _)
    exact goes_read sound denotes

end TextWork

namespace Backing

open Relation (ReflTransGen)

variable {backing after : Backing} {Held : Word → Prop}

/-! ## Histories -/

/-- What happens to a heap: works on strings, and collections that leave what is held. -/
inductive Moves (Held : Word → Prop) : Backing → Backing → Prop
  | work {backing : Backing} (work : TextWork) :
      work.Applies backing.heap →
      Moves Held backing (work.after backing)
  | collect {backing : Backing} (roots : List Word) :
      (∀ word, Held word → backing.heap.Reached roots word) →
      Moves Held backing (backing.collect roots)

/-- What one move and then any number of them keep. -/
structure Persists (Held : Word → Prop) (backing after : Backing) : Prop where
  sound : after.Sound
  keeps : backing.storage.Keeps after.storage
  denotes : ∀ word text, Held word → backing.heap.Denotes word text → after.heap.Denotes word text

theorem Moves.persists (moves : Moves Held backing after) (sound : backing.Sound) :
    Persists Held backing after := by
  cases moves with
  | work work applies =>
    obtain ⟨progress, _⟩ := TextWork.goes sound applies
    exact ⟨progress.sound, progress.keeps, fun word text _ => progress.denotes word text⟩
  | collect roots reached =>
    refine ⟨sound.collect roots, .refl _, ?_⟩
    intro word text held denotes
    exact (Heap.denotes_collect sound.recalls.wellFormed (reached word held).leaves).2 denotes

theorem persists_of_history (history : ReflTransGen (Moves Held) backing after)
    (sound : backing.Sound) : Persists Held backing after := by
  induction history with
  | refl => exact ⟨sound, .refl _, fun _ _ _ denotes => denotes⟩
  | tail _ moves ih =>
    have next := moves.persists ih.sound
    refine ⟨next.sound, ih.keeps.trans next.keeps, ?_⟩
    intro word text held denotes
    exact next.denotes word text held (ih.denotes word text held denotes)

/-- A link denotes an append, whatever texts links keep. On every heap that works on strings and
collections lead to, what a string or link denotes is what it is read as, by a walk that ends. The
reading and collections change the text of nothing that is kept, the bytes that were read stay as
they are for ever, and the string that was read denotes the same as long as it is kept. -/
theorem links_denote_appends {interval limit : Int}
    (history : ReflTransGen (Moves fun _ => False) (new interval limit) backing) :
    (∀ word previous byte flat, backing.heap.Contains word (.link previous byte flat) →
      ∃ text, backing.heap.Denotes previous text ∧ backing.heap.Denotes word (text.push byte)) ∧
    (∀ (work : TextWork) (session : Session) (below : Array Word), work.Applies backing.heap →
      session.shared.heap = backing.heap →
      session.executor.eval.items = work.operands.foldl Array.push below →
      (Exec.ending (work.computation session)).shared.heap = (work.after backing).heap) ∧
    (∀ roots word text, backing.heap.Reached roots word →
      ((backing.collect roots).heap.Denotes word text ↔ backing.heap.Denotes word text)) ∧
    ∀ word text, backing.heap.Denotes word text →
      (∀ other, backing.heap.Denotes word other → other = text) ∧
      ∃ span read, Backed.read word backing = .ok span read ∧
        read.storage.bytes span = text ∧
        (∀ session : Session, session.shared.heap = backing.heap →
          Exec.text word session =
            .ok text { session with shared := { session.shared with heap := read.heap } }) ∧
        (∀ other found, read.heap.Denotes other found ↔ backing.heap.Denotes other found) ∧
        (∀ later, ReflTransGen (Moves fun _ => False) read later →
          later.storage.bytes span = text) ∧
        (∀ later, ReflTransGen (Moves (· = word)) read later →
          later.heap.Denotes word text ∧ later.heap.text word = .ok text) := by
  have sound := (persists_of_history history (sound_new interval limit)).sound
  refine ⟨?_, ?_, ?_, ?_⟩
  · intro word previous byte flat contains
    obtain ⟨text, denotes⟩ := sound.recalls.links _ _ _ _ contains
    exact ⟨text, denotes, .link contains denotes⟩
  · exact fun work session below applies => (TextWork.goes sound applies).machine session below
  · exact fun roots word text reached =>
      Heap.denotes_collect sound.recalls.wellFormed reached.leaves
  · intro word text denotes
    obtain ⟨span, read, reads⟩ := sound.read denotes
    refine ⟨fun other again => again.unique denotes rfl, span, read, reads.read, reads.shown,
      reads.machine, reads.denotes, ?_, ?_⟩
    · intro later rest
      have persists := persists_of_history rest reads.progress.sound
      exact (persists.keeps.bytes_eq reads.fits).trans reads.shown
    · intro later rest
      have persists := persists_of_history rest reads.progress.sound
      have kept := persists.denotes word text rfl (reads.progress.denotes word text denotes)
      exact ⟨kept, persists.sound.recalls.text_eq kept⟩

/-- The word for the object that is made as the given one, while nothing is freed. -/
def made (number : UInt32) : Word :=
  .ofHandle (.make number 0)

/-- The first of these works: a string, two links that follow it, the first of which is asked for
its text, and a slice of that text. -/
def chained (count : Nat) : Backing :=
  let works : List TextWork := [.string (Bytes.ofList [97, 98]), .link (made 1) 99,
    .link (made 2) 100, .read (made 2), .slice (made 2) 1 3]
  (works.take count).foldl (fun backing work => work.after backing) (new 0 0)

/-- The slice is collected, and the last link denotes all four bytes. -/
theorem links_denote_appends_chained :
    ((chained 5).collect [made 3]).heap.count = 3 ∧
      ∃ span read, Backed.read (made 3) ((chained 5).collect [made 3]) = .ok span read ∧
        read.storage.bytes span = Bytes.ofList [97, 98, 99, 100] := by
  have room : ∀ count < 5, (chained count).heap.slots.size + 1 < 2 ^ 32 := by decide
  have first : ∀ count < 6, 0 < count →
      (chained count).heap.deref (made 1) = .ok ⟨34, .string (Bytes.ofList [97, 98])⟩ := by
    decide
  have second : ∀ count < 4, 1 < count →
      (chained count).heap.deref (made 2) = .ok ⟨40, .link (made 1) 99 none⟩ := by
    decide
  have kept : (chained 4).heap.deref (made 2) =
      .ok ⟨40, .link (made 1) 99 (some (Bytes.ofList [97, 98, 99]))⟩ := by
    decide
  have start : ∀ count < 6, 0 < count →
      (chained count).heap.Denotes (made 1) (Bytes.ofList [97, 98]) :=
    fun count small large => .string ⟨_, first count small large⟩
  have linked : ∀ count < 4, 1 < count →
      (chained count).heap.Denotes (made 2) (Bytes.ofList [97, 98, 99]) :=
    fun count small large =>
      .link ⟨_, second count small large⟩ (start count (by omega) (by omega))
  have asked : (chained 4).heap.Denotes (made 2) (Bytes.ofList [97, 98, 99]) :=
    .link ⟨_, kept⟩ (start 4 (by decide) (by decide))
  have applies : ∀ count < 5, ∀ (work : TextWork) (word : Word) (text : Bytes),
      work.strings = [word] → (chained count).heap.Denotes word text →
      work.Applies (chained count).heap := by
    intro count small work word text only denotes
    refine ⟨?_, room count small⟩
    intro other member
    rw [only] at member
    cases List.mem_singleton.1 member
    exact ⟨text, denotes⟩
  have history : ReflTransGen (Moves fun _ => False) (new 0 0) ((chained 5).collect [made 3]) := by
    have one : Moves (fun _ => False) (chained 0) (chained 1) :=
      .work (.string (Bytes.ofList [97, 98])) ⟨fun _ => nofun, room 0 (by decide)⟩
    have two : Moves (fun _ => False) (chained 1) (chained 2) :=
      .work (.link (made 1) 99) (applies 1 (by decide) _ _ _ rfl (start 1 (by decide) (by decide)))
    have three : Moves (fun _ => False) (chained 2) (chained 3) :=
      .work (.link (made 2) 100)
        (applies 2 (by decide) _ _ _ rfl (linked 2 (by decide) (by decide)))
    have four : Moves (fun _ => False) (chained 3) (chained 4) :=
      .work (.read (made 2)) (applies 3 (by decide) _ _ _ rfl (linked 3 (by decide) (by decide)))
    have five : Moves (fun _ => False) (chained 4) (chained 5) :=
      .work (.slice (made 2) 1 3) (applies 4 (by decide) _ _ _ rfl asked)
    exact (((((ReflTransGen.single one).tail two).tail three).tail four).tail five).tail
      (.collect [made 3] fun _ => nofun)
  have third : ((chained 5).collect [made 3]).heap.Denotes (made 3)
      (Bytes.ofList [97, 98, 99, 100]) := by
    have lastLink : ((chained 5).collect [made 3]).heap.deref (made 3) =
        .ok ⟨40, .link (made 2) 100 none⟩ := by decide
    have firstLink : ((chained 5).collect [made 3]).heap.deref (made 2) =
        .ok ⟨40, .link (made 1) 99 (some (Bytes.ofList [97, 98, 99]))⟩ := by decide
    have string : ((chained 5).collect [made 3]).heap.deref (made 1) =
        .ok ⟨34, .string (Bytes.ofList [97, 98])⟩ := by decide
    exact .link ⟨_, lastLink⟩ (.link ⟨_, firstLink⟩ (.string ⟨_, string⟩))
  obtain ⟨_, _, _, denoted⟩ := links_denote_appends history
  obtain ⟨_, span, read, done, shown, _⟩ := denoted _ _ third
  exact ⟨by decide, span, read, done, shown⟩

end Backing

end WordMachine
