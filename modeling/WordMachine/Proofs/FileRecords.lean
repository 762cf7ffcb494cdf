import WordMachine.Proofs.Effects
import WordMachine.Proofs.HeapContents

/-!
The record of opened files, and the streams that are still to be closed. For each file the record
counts what was opened and closed; the difference is where its stream is: in the heap, or on its way
to be closed.
-/

namespace WordMachine

/-! ## Events -/

namespace FileEvent

def Follows (earlier : List FileEvent) : FileEvent → Prop
  | .opened handle _ _ => ∀ path autoRemove, .opened handle path autoRemove ∉ earlier
  | .closed handle =>
    (∃ path autoRemove, .opened handle path autoRemove ∈ earlier) ∧ .closed handle ∉ earlier
  -- Only what was asked for is removed, and an empty path is not.
  | .discarded handle path =>
    .opened handle path true ∈ earlier ∧ path.isEmpty = false ∧ .closed handle ∈ earlier ∧
      ∀ other, .discarded handle other ∉ earlier

def Lawful : List FileEvent → Prop
  | [] => True
  | event :: earlier => event.Follows earlier ∧ Lawful earlier

def opens (handle : Nat) : FileEvent → Bool
  | .opened other _ _ => other == handle
  | _ => false

/-- Whether an event is an attempt to remove a file. -/
def discards (handle : Nat) : FileEvent → Bool
  | .discarded other _ => other == handle
  | _ => false

variable {record later earlier : List FileEvent} {event : FileEvent} {handle : Nat}
  {path other : Bytes} {autoRemove otherRemove : Bool}

theorem Lawful.follows (lawful : Lawful (later ++ event :: earlier)) : event.Follows earlier := by
  induction later with
  | nil => exact lawful.1
  | cons _ _ ih => exact ih lawful.2

theorem countP_opens_eq_zero :
    record.countP (opens handle) = 0 ↔
      ∀ path autoRemove, .opened handle path autoRemove ∉ record := by
  rw [List.countP_eq_zero]
  constructor
  · exact fun none path autoRemove member => none _ member (beq_self_eq_true handle)
  · intro never event member opened
    cases event with
    | opened other path autoRemove =>
      obtain rfl := eq_of_beq opened
      exact never path autoRemove member
    | _ => cases opened

theorem countP_discards_eq_zero :
    record.countP (discards handle) = 0 ↔ ∀ path, .discarded handle path ∉ record := by
  rw [List.countP_eq_zero]
  constructor
  · exact fun none path member => none _ member (beq_self_eq_true handle)
  · intro never event member discarded
    cases event with
    | discarded other path =>
      obtain rfl := eq_of_beq discarded
      exact never path member
    | _ => cases discarded

theorem Lawful.opened_once (lawful : Lawful record)
    (first : .opened handle path autoRemove ∈ record)
    (second : .opened handle other otherRemove ∈ record) :
    path = other ∧ autoRemove = otherRemove := by
  induction record with
  | nil => cases first
  | cons event earlier ih =>
    obtain ⟨follows, rest⟩ := lawful
    rcases List.mem_cons.1 first with rfl | before <;>
      rcases List.mem_cons.1 second with same | after
    · cases same
      exact ⟨rfl, rfl⟩
    · exact absurd after (follows other otherRemove)
    · cases same
      exact absurd before (follows path autoRemove)
    · exact ih rest before after

theorem Lawful.countP_opens_le_one (lawful : Lawful record) (handle : Nat) :
    record.countP (opens handle) ≤ 1 := by
  induction record with
  | nil => exact Nat.zero_le _
  | cons event earlier ih =>
    obtain ⟨follows, rest⟩ := lawful
    rw [List.countP_cons]
    by_cases opened : opens handle event = true
    · cases event with
      | opened other path autoRemove =>
        obtain rfl := eq_of_beq opened
        rw [countP_opens_eq_zero.2 follows, if_pos opened]
      | _ => cases opened
    · rw [if_neg opened]
      exact ih rest

theorem Lawful.opened_of_closed (lawful : Lawful record) (closed : .closed handle ∈ record) :
    ∃ path autoRemove, .opened handle path autoRemove ∈ record := by
  induction record with
  | nil => cases closed
  | cons event earlier ih =>
    obtain ⟨follows, rest⟩ := lawful
    rcases List.mem_cons.1 closed with rfl | before
    · obtain ⟨path, autoRemove, opened⟩ := follows.1
      exact ⟨path, autoRemove, List.mem_cons_of_mem _ opened⟩
    · obtain ⟨path, autoRemove, opened⟩ := ih rest before
      exact ⟨path, autoRemove, List.mem_cons_of_mem _ opened⟩

theorem Lawful.opened_of_discarded (lawful : Lawful record)
    (discarded : .discarded handle path ∈ record) : .opened handle path true ∈ record := by
  induction record with
  | nil => cases discarded
  | cons event earlier ih =>
    obtain ⟨follows, rest⟩ := lawful
    rcases List.mem_cons.1 discarded with rfl | before
    · exact List.mem_cons_of_mem _ follows.1
    · exact List.mem_cons_of_mem _ (ih rest before)

end FileEvent

/-! ## Streams -/

namespace Stream

variable {stream : Stream}

/-- Whether a stream is the one of a file, as a number. -/
def has (handle : Nat) (stream : Stream) : Nat :=
  if stream.handle? = some handle then 1 else 0

/-- Whether closing a stream closes a file. -/
def holds (handle : Nat) (stream : Stream) : Nat :=
  if stream.closed then 0 else stream.has handle

/-- Whether a file is to be removed with a stream. -/
def owes (handle : Nat) (stream : Stream) : Nat :=
  if stream.removeOnClose.isSome then stream.has handle else 0

/-- A stream whose file was opened as it says. -/
def Matches (record : List FileEvent) (stream : Stream) : Prop :=
  ∀ handle, stream.handle? = some handle →
    ∃ path autoRemove, .opened handle path autoRemove ∈ record ∧
      stream.removeOnClose = removal path autoRemove

theorem Matches.mono {record after : List FileEvent} (matched : stream.Matches record)
    (grown : ∀ event ∈ record, event ∈ after) : stream.Matches after := by
  intro handle found
  obtain ⟨path, autoRemove, opened, removes⟩ := matched handle found
  exact ⟨path, autoRemove, grown _ opened, removes⟩

theorem matches_of_none {record : List FileEvent} (nobody : stream.handle? = none) :
    stream.Matches record := by
  intro handle found
  rw [nobody] at found
  cases found

theorem isSome_removal (path : Bytes) (autoRemove : Bool) :
    (removal path autoRemove).isSome = true ↔ autoRemove = true ∧ path.isEmpty = false := by
  unfold removal
  cases autoRemove <;> cases path.isEmpty <;> simp

theorem holds_of_closed (closed : stream.closed = true) (handle : Nat) : stream.holds handle = 0 :=
  if_pos closed

theorem holds_of_unclosed (unclosed : stream.closed = false) (handle : Nat) :
    stream.holds handle = stream.has handle := by
  unfold holds
  rw [unclosed]
  rfl

theorem handle?_of_has {handle : Nat} (counts : stream.has handle ≠ 0) :
    stream.handle? = some handle := by
  by_contra other
  exact counts (if_neg other)

theorem of_holds {handle : Nat} (counts : stream.holds handle ≠ 0) :
    stream.closed = false ∧ stream.handle? = some handle := by
  cases closed : stream.closed with
  | true => exact absurd (stream.holds_of_closed closed handle) counts
  | false =>
    rw [stream.holds_of_unclosed closed] at counts
    exact ⟨rfl, handle?_of_has counts⟩

theorem holds_of_none (nobody : stream.handle? = none) (handle : Nat) :
    stream.holds handle = 0 := by
  unfold holds has
  rw [nobody]
  split <;> rfl

theorem release_record (stream : Stream) (platform : Platform) :
    (stream.release platform).handles = platform.handles ∧
      (stream.release platform).record =
        (stream.handle?.map FileEvent.closed).toList ++ platform.record := by
  unfold release handle?
  cases stream.endpoint with
  | none => exact ⟨rfl, rfl⟩
  | listener number => exact ⟨rfl, rfl⟩
  | channel channel => cases channel <;> exact ⟨rfl, rfl⟩

theorem discard_record (stream : Stream) (platform : Platform) :
    (stream.discard platform).handles = platform.handles ∧
      (stream.discard platform).record =
        (stream.removeOnClose.bind fun path =>
          stream.handle?.map (FileEvent.discarded · path)).toList ++ platform.record := by
  unfold discard
  cases stream.removeOnClose with
  | none => exact ⟨rfl, rfl⟩
  | some path =>
    have same : platform.SameRecord (platform.withoutFile path) := by
      unfold Platform.withoutFile Platform.removeFile
      cases platform.files.remove? path <;> exact ⟨rfl, rfl⟩
    cases found : stream.handle? with
    | none => exact same
    | some handle =>
      refine ⟨same.1, ?_⟩
      exact congrArg (FileEvent.discarded handle path :: ·) same.2

end Stream

namespace Payload

variable {payload : Payload}

def holds (handle : Nat) : Payload → Nat
  | .stream held => held.holds handle
  | _ => 0

def Matches (record : List FileEvent) (payload : Payload) : Prop :=
  ∀ stream, payload = .stream stream → stream.Matches record

theorem of_holds {handle : Nat} (counts : payload.holds handle ≠ 0) :
    ∃ stream, payload = .stream stream ∧ stream.closed = false ∧ stream.handle? = some handle := by
  cases payload with
  | stream held => exact ⟨held, rfl, held.of_holds counts⟩
  | _ => exact absurd rfl counts

theorem holds_of_plain {target : UInt32 → Prop} (plain : payload.Plain target) (handle : Nat) :
    payload.holds handle = 0 := by
  cases payload with
  | stream held => exact held.holds_of_none plain handle
  | _ => rfl

theorem matches_of_plain {target : UInt32 → Prop} (plain : payload.Plain target)
    (record : List FileEvent) : payload.Matches record := by
  rintro stream rfl
  exact Stream.matches_of_none plain

/-- A change of contents keeps what the object holds of a file. -/
theorem Rewrites.holds {before after : Payload} (rewrites : before.Rewrites after) (handle : Nat) :
    after.holds handle = before.holds handle := by
  cases rewrites with
  | text text kind =>
    cases before with
    | stream => cases kind
    | _ => rfl
  | stream handles closed removal =>
    unfold Payload.holds Stream.holds Stream.has
    dsimp only
    rw [handles, closed]
  | _ => rfl

theorem Rewrites.matches {before after : Payload} (rewrites : before.Rewrites after)
    {record : List FileEvent} (matched : before.Matches record) : after.Matches record := by
  rintro stream rfl
  cases rewrites with
  | stream handles closed removal =>
    intro handle found
    rw [handles] at found
    rw [removal]
    exact matched _ rfl handle found

end Payload

namespace Heap

theorem sum_freedStreams (handle : Nat) (freed : List Freed) :
    ((freedStreams freed).map (Stream.holds handle)).sum =
      freedTotal (Payload.holds handle) freed := by
  induction freed with
  | nil => rfl
  | cons entry rest ih =>
    unfold freedStreams freedTotal at ih ⊢
    rw [List.filterMap_cons, List.map_cons, List.sum_cons, ← ih]
    cases entry.object.payload with
    | stream held => rfl
    | _ => exact (Nat.zero_add _).symm

theorem mem_freedStreams {freed : List Freed} {stream : Stream}
    (member : stream ∈ freedStreams freed) :
    ∃ entry ∈ freed, entry.object.payload = .stream stream := by
  obtain ⟨entry, listed, found⟩ := List.mem_filterMap.1 member
  refine ⟨entry, listed, ?_⟩
  split at found
  · next held => rw [held, Option.some.inj found]
  · cases found

end Heap

/-! ## The books -/

/-- What is known of opened files: for each, how many streams are to be closed elsewhere than in the
heap, and how many removals are awaited. -/
structure Books (elsewhere awaiting : Nat → Nat) (heap : Heap) (platform : Platform) : Prop where
  lawful : FileEvent.Lawful platform.record
  numbered : ∀ handle path autoRemove, .opened handle path autoRemove ∈ platform.record →
    handle < platform.handles
  matched : heap.Each (Payload.Matches platform.record)
  held : ∀ handle,
    heap.total (Payload.holds handle) + elsewhere handle + platform.record.count (.closed handle) =
      platform.record.countP (FileEvent.opens handle)
  due : ∀ handle path autoRemove, .opened handle path autoRemove ∈ platform.record →
    awaiting handle + platform.record.countP (FileEvent.discards handle) =
      if (Stream.removal path autoRemove).isSome then platform.record.count (.closed handle) else 0
  strangers : ∀ handle, (∀ path autoRemove, .opened handle path autoRemove ∉ platform.record) →
    awaiting handle = 0

namespace Books

variable {elsewhere awaiting : Nat → Nat} {heap changed : Heap} {platform after : Platform}
  {stream : Stream}

/-- What is to be closed and removed is counted in other places. -/
theorem moved (books : Books elsewhere awaiting heap platform) {other expected : Nat → Nat}
    (matched : changed.Each (Payload.Matches platform.record))
    (same : ∀ handle, changed.total (Payload.holds handle) + other handle =
      heap.total (Payload.holds handle) + elsewhere handle)
    (awaited : ∀ handle, expected handle = awaiting handle) :
    Books other expected changed platform := by
  obtain rfl := funext awaited
  refine ⟨books.lawful, books.numbered, matched, fun handle => ?_, books.due, books.strangers⟩
  rw [same]
  exact books.held handle

theorem withHeap (books : Books elsewhere awaiting heap platform)
    (matched : changed.Each (Payload.Matches platform.record))
    (same : ∀ handle, changed.total (Payload.holds handle) = heap.total (Payload.holds handle)) :
    Books elsewhere awaiting changed platform :=
  books.moved matched (fun handle => by rw [same]) fun _ => rfl

theorem withPlatform (books : Books elsewhere awaiting heap platform)
    (same : platform.SameRecord after) : Books elsewhere awaiting heap after := by
  obtain ⟨handles, record⟩ := same
  refine ⟨?_, ?_, ?_, ?_, ?_, ?_⟩ <;> rw [record]
  · exact books.lawful
  · rw [handles]
    exact books.numbered
  · exact books.matched
  · exact books.held
  · exact books.due
  · exact books.strangers

theorem opened (books : Books elsewhere awaiting heap platform) {path : Bytes} {autoRemove : Bool}
    (opens : stream.Opens platform after path autoRemove) :
    Books (fun handle => elsewhere handle + stream.has handle) awaiting heap after := by
  have fresh : ∀ path autoRemove, .opened platform.handles path autoRemove ∉ platform.record :=
    fun path autoRemove opened => Nat.lt_irrefl _ (books.numbered _ path autoRemove opened)
  have unclosed : platform.record.count (.closed platform.handles) = 0 := by
    rw [List.count_eq_zero]
    intro closed
    obtain ⟨path, autoRemove, opened⟩ := books.lawful.opened_of_closed closed
    exact fresh path autoRemove opened
  have undiscarded : platform.record.countP (FileEvent.discards platform.handles) = 0 := by
    rw [FileEvent.countP_discards_eq_zero]
    exact fun path discarded => fresh path true (books.lawful.opened_of_discarded discarded)
  have counts : ∀ handle,
      after.record.count (.closed handle) = platform.record.count (.closed handle) ∧
        after.record.countP (FileEvent.discards handle) =
          platform.record.countP (FileEvent.discards handle) := by
    intro handle
    rw [opens.record]
    exact ⟨List.count_cons_of_ne (by simp), List.countP_cons_of_neg nofun⟩
  constructor
  case lawful =>
    rw [opens.record]
    exact ⟨fresh, books.lawful⟩
  case numbered =>
    rw [opens.record, opens.handles]
    intro handle other removed member
    rcases List.mem_cons.1 member with same | before
    · cases same
      exact Nat.lt_succ_self _
    · exact Nat.lt_succ_of_lt (books.numbered handle other removed before)
  case matched =>
    refine books.matched.mono fun payload matched held same => (matched held same).mono ?_
    rw [opens.record]
    exact fun _ => List.mem_cons_of_mem _
  case held =>
    intro handle
    have held := books.held handle
    have shown : FileEvent.opens handle (.opened platform.handles path autoRemove) =
        (platform.handles == handle) := rfl
    rw [(counts handle).1, opens.record, List.countP_cons, shown]
    unfold Stream.has
    simp only [opens.handle, Option.some_inj, beq_iff_eq]
    omega
  case due =>
    intro handle other removed member
    rw [(counts handle).1, (counts handle).2]
    rw [opens.record] at member
    rcases List.mem_cons.1 member with same | before
    · cases same
      rw [unclosed, undiscarded, books.strangers _ fresh, ite_self]
    · exact books.due handle other removed before
  case strangers =>
    intro handle never
    refine books.strangers handle fun path autoRemove opened => never path autoRemove ?_
    rw [opens.record]
    exact List.mem_cons_of_mem _ opened

theorem stored (books : Books (fun handle => elsewhere handle + stream.has handle) awaiting heap
      platform) (wellFormed : heap.WellFormed) (unclosed : stream.closed = false)
    (matched : stream.Matches platform.record) :
    Books elsewhere awaiting (heap.allocate (.stream stream)).2 platform := by
  refine ⟨books.lawful, books.numbered, books.matched.allocate ?_, fun handle => ?_, books.due,
    books.strangers⟩
  · rintro other ⟨⟩
    exact matched
  · have held := books.held handle
    have cost : Payload.holds handle (.stream stream) = stream.has handle :=
      Stream.holds_of_unclosed unclosed handle
    rw [Heap.total_allocate wellFormed, cost]
    omega

/-- An object without a file is made. -/
theorem allocate (books : Books elsewhere awaiting heap platform) (wellFormed : heap.WellFormed)
    {payload : Payload} (nothing : ∀ handle, payload.holds handle = 0)
    (matched : payload.Matches platform.record) :
    Books elsewhere awaiting (heap.allocate payload).2 platform := by
  refine books.withHeap (books.matched.allocate matched) fun handle => ?_
  rw [Heap.total_allocate wellFormed, nothing, Nat.add_zero]

theorem released (books : Books (fun handle => elsewhere handle + stream.has handle) awaiting heap
      platform) (matched : stream.Matches platform.record) :
    Books elsewhere (fun handle => awaiting handle + stream.owes handle) heap
      (stream.release platform) := by
  obtain ⟨handles, record⟩ := stream.release_record platform
  cases found : stream.handle? with
  | none =>
    have nothing : ∀ handle, stream.has handle = 0 := by
      intro handle
      unfold Stream.has
      rw [found]
      rfl
    have free : ∀ handle, stream.owes handle = 0 := by
      intro handle
      unfold Stream.owes
      rw [nothing, ite_self]
    rw [found] at record
    simp only [nothing, free, Nat.add_zero] at books ⊢
    exact books.withPlatform ⟨handles, record⟩
  | some number =>
    obtain ⟨path, autoRemove, opened, removes⟩ := matched number found
    have has : ∀ handle, stream.has handle = if number = handle then 1 else 0 := by
      intro handle
      unfold Stream.has
      simp only [found, Option.some_inj]
    have counted := books.held number
    have once := books.lawful.countP_opens_le_one number
    rw [has, if_pos rfl] at counted
    have before : FileEvent.closed number ∉ platform.record := by
      rw [← List.count_eq_zero]
      omega
    rw [found] at record
    change (stream.release platform).record = .closed number :: platform.record at record
    have counts : ∀ handle,
        (stream.release platform).record.count (.closed handle) =
            platform.record.count (.closed handle) + (if number = handle then 1 else 0) ∧
          (stream.release platform).record.countP (FileEvent.opens handle) =
            platform.record.countP (FileEvent.opens handle) ∧
          (stream.release platform).record.countP (FileEvent.discards handle) =
            platform.record.countP (FileEvent.discards handle) := by
      intro handle
      rw [record]
      refine ⟨?_, List.countP_cons_of_neg Bool.false_ne_true,
        List.countP_cons_of_neg Bool.false_ne_true⟩
      simp [List.count_cons]
    constructor
    case lawful =>
      rw [record]
      exact ⟨⟨⟨path, autoRemove, opened⟩, before⟩, books.lawful⟩
    case numbered =>
      rw [record, handles]
      intro handle other removed member
      exact books.numbered handle other removed ((List.mem_cons.1 member).resolve_left nofun)
    case matched =>
      refine books.matched.mono fun payload matched held same => (matched held same).mono ?_
      rw [record]
      exact fun _ => List.mem_cons_of_mem _
    case held =>
      intro handle
      have held := books.held handle
      rw [has] at held
      rw [(counts handle).1, (counts handle).2.1]
      omega
    case due =>
      intro handle other removed member
      rw [record] at member
      have known := (List.mem_cons.1 member).resolve_left nofun
      have due := books.due handle other removed known
      rw [(counts handle).1, (counts handle).2.2]
      unfold Stream.owes
      rw [has]
      by_cases same : number = handle
      · subst same
        obtain ⟨rfl, rfl⟩ := books.lawful.opened_once opened known
        rw [removes]
        by_cases flagged : (Stream.removal path autoRemove).isSome = true
        · simp only [flagged, if_true] at due ⊢
          omega
        · simp only [flagged, Bool.false_eq_true, if_false] at due ⊢
          omega
      · rw [if_neg same, ite_self]
        exact due
    case strangers =>
      intro handle never
      rw [record] at never
      have unknown : ∀ path autoRemove, .opened handle path autoRemove ∉ platform.record :=
        fun path autoRemove opened => never path autoRemove (List.mem_cons_of_mem _ opened)
      have apart : number ≠ handle := by
        rintro rfl
        exact unknown path autoRemove opened
      unfold Stream.owes
      rw [has, if_neg apart, ite_self]
      exact books.strangers handle unknown

theorem discarded (books : Books elsewhere (fun handle => awaiting handle + stream.owes handle) heap
      platform) (matched : stream.Matches platform.record) :
    Books elsewhere awaiting heap (stream.discard platform) := by
  obtain ⟨handles, record⟩ := stream.discard_record platform
  -- Without a file, or one that is to be removed, nothing is recorded.
  have unchanged : (stream.discard platform).record = platform.record →
      (∀ handle, stream.owes handle = 0) →
      Books elsewhere awaiting heap (stream.discard platform) := by
    intro same nothing
    simp only [nothing, Nat.add_zero] at books
    exact books.withPlatform ⟨handles, same⟩
  cases removes : stream.removeOnClose with
  | none =>
    rw [removes] at record
    refine unchanged record fun handle => ?_
    unfold Stream.owes
    rw [removes]
    rfl
  | some path =>
    cases found : stream.handle? with
    | none =>
      rw [removes, found] at record
      refine unchanged record fun handle => ?_
      unfold Stream.owes Stream.has
      rw [found]
      exact ite_self 0
    | some number =>
      rw [removes, found] at record
      change (stream.discard platform).record = .discarded number path :: platform.record
        at record
      obtain ⟨known, autoRemove, opened, same⟩ := matched number found
      rw [removes] at same
      have owes : ∀ handle, stream.owes handle = if number = handle then 1 else 0 := by
        intro handle
        unfold Stream.owes Stream.has
        simp only [removes, found, Option.isSome_some, if_true, Option.some_inj]
      simp only [owes] at books
      -- What is awaited was asked for, and the file is closed.
      have flagged : (Stream.removal known autoRemove).isSome = true := by
        rw [← same]
        rfl
      obtain ⟨rfl, rfl, nonempty⟩ : autoRemove = true ∧ known = path ∧ path.isEmpty = false := by
        unfold Stream.removal at same
        split at same
        · cases same
        · next asked =>
          cases same
          rw [not_or] at asked
          exact ⟨Bool.eq_true_of_not_eq_false asked.1, rfl, Bool.eq_false_iff.2 asked.2⟩
      have due := books.due number known true opened
      have held := books.held number
      have once := books.lawful.countP_opens_le_one number
      rw [if_pos flagged, if_pos rfl] at due
      have counts : ∀ handle,
          (stream.discard platform).record.count (.closed handle) =
              platform.record.count (.closed handle) ∧
            (stream.discard platform).record.countP (FileEvent.opens handle) =
              platform.record.countP (FileEvent.opens handle) ∧
            (stream.discard platform).record.countP (FileEvent.discards handle) =
              platform.record.countP (FileEvent.discards handle) +
                (if number = handle then 1 else 0) := by
        intro handle
        rw [record]
        refine ⟨List.count_cons_of_ne (by simp), List.countP_cons_of_neg Bool.false_ne_true, ?_⟩
        simp [List.countP_cons, FileEvent.discards]
      constructor
      case lawful =>
        rw [record]
        refine ⟨⟨opened, nonempty, ?_, ?_⟩, books.lawful⟩
        · rw [← List.count_pos_iff]
          omega
        · rw [← FileEvent.countP_discards_eq_zero]
          omega
      case numbered =>
        rw [record, handles]
        intro handle other removed member
        exact books.numbered handle other removed ((List.mem_cons.1 member).resolve_left nofun)
      case matched =>
        refine books.matched.mono fun payload matched held same => (matched held same).mono ?_
        rw [record]
        exact fun _ => List.mem_cons_of_mem _
      case held =>
        intro handle
        rw [(counts handle).1, (counts handle).2.1]
        exact books.held handle
      case due =>
        intro handle other removed member
        rw [record] at member
        have before := books.due handle other removed
          ((List.mem_cons.1 member).resolve_left nofun)
        rw [(counts handle).1, (counts handle).2.2]
        omega
      case strangers =>
        intro handle never
        rw [record] at never
        have before := books.strangers handle fun path autoRemove opened =>
          never path autoRemove (List.mem_cons_of_mem _ opened)
        omega

end Books

end WordMachine
