import WordMachine.Proofs.FileRecords
import WordMachine.Proofs.FutureProtocol

/-!
Streams of files are closed once. While executors run, a stream is closed only after nothing led to
it, or if there was no room for it; when the run has returned, every file that was opened is closed,
and then removed if that was asked for.
-/

namespace WordMachine

/-! ## What a strand does with files -/

/-- An object that is no stream of a closed file. -/
def Payload.Unclosed (payload : Payload) : Prop :=
  ∀ stream handle, payload = .stream stream → stream.handle? = some handle → stream.closed = false

theorem Payload.Plain.unclosed {target : UInt32 → Prop} {payload : Payload}
    (plain : payload.Plain target) : payload.Unclosed := by
  rintro stream handle rfl found
  have nobody : stream.handle? = none := plain
  rw [nobody] at found
  cases found

theorem Payload.Rewrites.unclosed {before after : Payload} (rewrites : before.Rewrites after)
    (unclosed : before.Unclosed) : after.Unclosed := by
  rintro stream handle rfl found
  cases rewrites with
  | stream handles closed removal =>
    rw [handles] at found
    rw [closed]
    exact unclosed _ handle rfl found

namespace Stream

variable {stream : Stream} {platform after : Platform} {path : Bytes} {autoRemove : Bool}

theorem Opens.matches (opens : stream.Opens platform after path autoRemove) :
    stream.Matches after.record := by
  intro handle found
  rw [opens.handle] at found
  cases found
  refine ⟨path, autoRemove, ?_, opens.removal⟩
  rw [opens.record]
  exact List.mem_cons_self

theorem Opens.grown (opens : stream.Opens platform after path autoRemove) :
    ∀ event ∈ platform.record, event ∈ after.record := by
  rw [opens.record]
  exact fun _ => List.mem_cons_of_mem _

theorem release_grown (stream : Stream) (platform : Platform) :
    ∀ event ∈ platform.record, event ∈ (stream.release platform).record := by
  rw [(stream.release_record platform).2]
  exact fun _ => List.mem_append_right _

theorem discard_grown (stream : Stream) (platform : Platform) :
    ∀ event ∈ platform.record, event ∈ (stream.discard platform).record := by
  rw [(stream.discard_record platform).2]
  exact fun _ => List.mem_append_right _

theorem close_eq (unclosed : stream.closed = false) (platform : Platform) :
    (stream.close platform).2 = stream.discard (stream.release platform) := by
  unfold close
  rw [unclosed]
  rfl

end Stream

namespace Session

variable {target : UInt32 → Prop} {elsewhere awaiting : Nat → Nat} {start before after : Session}

/-- The books while one executor does something, when no file in the heap is closed. -/
structure Filed (elsewhere awaiting : Nat → Nat) (start session : Session) : Prop where
  books : Books elsewhere awaiting session.shared.heap session.shared.platform
  grown : ∀ event ∈ start.shared.platform.record, event ∈ session.shared.platform.record
  unclosed : session.shared.heap.Each Payload.Unclosed

theorem Filed.effect (filed : Filed elsewhere awaiting start before)
    (wellFormed : before.shared.heap.WellFormed) (effect : Effect target before after) :
    Filed elsewhere awaiting start after := by
  obtain ⟨books, grown, unclosed⟩ := filed
  cases effect with
  | own => exact ⟨books, grown, unclosed⟩
  | jump => exact ⟨books, grown, unclosed⟩
  | delayed => exact ⟨books, grown, unclosed⟩
  | enter => exact ⟨books, grown, unclosed⟩
  | leave => exact ⟨books, grown, unclosed⟩
  | around platform journal aborting fault milestones same =>
    refine ⟨books.withPlatform same, fun event member => ?_, unclosed⟩
    change event ∈ platform.record
    rw [same.2]
    exact grown event member
  | make payload plain =>
    exact ⟨books.allocate wellFormed (Payload.holds_of_plain plain)
      (Payload.matches_of_plain plain _), grown, unclosed.allocate plain.unclosed⟩
  | rewrite word object change bytes found rewrites =>
    refine ⟨books.withHeap ?_ fun handle => ?_, grown, ?_⟩
    · exact books.matched.modify found rfl (rewrites.matches (books.matched.lookup? found))
    · have totals := @Heap.total_change before.shared.heap
        { before.shared.heap with
          bytes
          slots := before.shared.heap.slots.modify (word.toHandle.index.toNat - 1) fun slot =>
            { slot with object := slot.object.map change } } (Payload.holds handle)
        word.toHandle object found change rfl
      rw [rewrites.holds handle] at totals
      exact Nat.add_right_cancel totals
    · exact unclosed.modify found rfl (rewrites.unclosed (unclosed.lookup? found))
  | fork arguments permitted =>
    exact ⟨books.allocate wellFormed (fun _ => rfl) fun _ => nofun, grown,
      unclosed.allocate fun _ _ => nofun⟩
  | @opened stream platform path autoRemove opens =>
    refine ⟨(books.opened opens).stored wellFormed opens.closed opens.matches,
      fun event member => opens.grown event (grown event member), unclosed.allocate ?_⟩
    rintro other handle ⟨⟩ _
    exact opens.closed
  | @refused stream platform path autoRemove opens =>
    have matched := opens.matches.mono (stream.release_grown platform)
    have closed := ((books.opened opens).released opens.matches).discarded matched
    refine ⟨?_, fun event member => ?_, unclosed⟩
    · change Books _ _ before.shared.heap (stream.close platform).2
      rw [Stream.close_eq opens.closed]
      exact closed
    · change event ∈ (stream.close platform).2.record
      rw [Stream.close_eq opens.closed]
      exact stream.discard_grown _ _ (stream.release_grown _ _ (opens.grown event
        (grown event member)))

theorem Effects.filed (effects : start.Effects target after)
    (wellFormed : start.shared.heap.WellFormed) (room : after.shared.heap.slots.size + 1 < 2 ^ 32)
    (books : Books elsewhere awaiting start.shared.heap start.shared.platform)
    (unclosed : start.shared.heap.Each Payload.Unclosed) : Filed elsewhere awaiting start after :=
  effects.keeps (fun _ _ filed formed _ effect => filed.effect formed effect) wellFormed room
    ⟨books, fun _ member => member, unclosed⟩

end Session

/-! ## What is known of an ensemble -/

namespace Duty

def stream : Duty → Stream
  | .release stream => stream
  | .discard stream => stream

/-- Whether a duty is to close a file. -/
def holds (handle : Nat) : Duty → Nat
  | .release stream => stream.has handle
  | .discard _ => 0

/-- Whether a duty is to remove a file. -/
def owes (handle : Nat) : Duty → Nat
  | .release _ => 0
  | .discard stream => stream.owes handle

end Duty

namespace Ensemble

variable {handle : Nat} {path : Bytes} {autoRemove : Bool}

/-- An ensemble whose books agree with the streams that are still to be closed. -/
structure Filed (ensemble : Ensemble) : Prop where
  books : Books
    (fun handle => (ensemble.swept.map (Stream.holds handle)).sum +
      (ensemble.duties.map (Duty.holds handle)).sum)
    (fun handle => (ensemble.duties.map (Duty.owes handle)).sum)
    ensemble.shared.heap ensemble.shared.platform
  swept : ∀ stream ∈ ensemble.swept, stream.Matches ensemble.shared.platform.record
  duties : ∀ duty ∈ ensemble.duties, duty.stream.Matches ensemble.shared.platform.record
  /-- Before the end, no file in the heap is closed. -/
  going : ensemble.finals = none → ensemble.shared.heap.Each Payload.Unclosed
  ending : ∀ words, ensemble.finals = some words → ensemble.strands = [] ∧
    ∀ handle object stream, ensemble.shared.heap.lookup? handle = some object →
      object.payload = .stream stream → stream.closed = false →
      ∃ word ∈ words, word.isRef = true ∧ word.toHandle.index = handle.index ∧
        word.toHandle.generation = handle.generation

variable {ensemble after : Ensemble} {position : Nat} {strand : Strand}

theorem Filed.finals (filed : ensemble.Filed) (member : strand ∈ ensemble.strands) :
    ensemble.finals = none := by
  cases final : ensemble.finals with
  | none => rfl
  | some words =>
    rw [(filed.ending words final).1] at member
    cases member

theorem Filed.work (filed : ensemble.Filed) (safe : ensemble.Safe) (room : ensemble.hasRoom = true)
    {computation : Exec Unit} {phase : Strand.Phase} {events : Session → List Event}
    (found : ensemble.strands[position]? = some strand)
    (works : ensemble.Works strand computation phase events) :
    (ensemble.perform position { strand with phase } computation events).Filed := by
  have before := filed.finals (List.mem_of_getElem? found)
  obtain ⟨books, grown, unclosed⟩ := works.effects.filed safe.intact.wellFormed
    (safe.roomAfter room found works) filed.books (filed.going before)
  refine ⟨books, fun stream member => (filed.swept stream member).mono grown,
    fun duty member => (filed.duties duty member).mono grown, fun _ => unclosed,
    fun words final => ?_⟩
  have nothing : ensemble.finals = some words := final
  rw [before] at nothing
  cases nothing

theorem Filed.same (filed : ensemble.Filed)
    (heap : after.shared.heap.slots = ensemble.shared.heap.slots)
    (platform : ensemble.shared.platform.SameRecord after.shared.platform)
    (swept : after.swept = ensemble.swept) (duties : after.duties = ensemble.duties)
    (finals : after.finals = ensemble.finals)
    (strands : ensemble.strands = [] → ensemble.finals ≠ none → after.strands = []) :
    after.Filed := by
  have lookups : after.shared.heap.lookup? = ensemble.shared.heap.lookup? := by
    funext handle
    unfold Heap.lookup? Heap.slot?
    rw [heap]
  have grown : ∀ event ∈ ensemble.shared.platform.record, event ∈ after.shared.platform.record := by
    rw [platform.2]
    exact fun _ member => member
  constructor
  case books =>
    rw [swept, duties]
    refine Books.withHeap (filed.books.withPlatform platform) ?_
      fun _ => Heap.total_of_slots heap
    intro slot member
    rw [heap] at member
    exact (filed.books.withPlatform platform).matched slot member
  case swept =>
    rw [swept]
    exact fun stream member => (filed.swept stream member).mono grown
  case duties =>
    rw [duties]
    exact fun duty member => (filed.duties duty member).mono grown
  case going =>
    rw [finals]
    intro going slot member
    rw [heap] at member
    exact filed.going going slot member
  case ending =>
    rw [finals, lookups]
    intro words final
    obtain ⟨empty, ahead⟩ := filed.ending words final
    refine ⟨strands empty ?_, ahead⟩
    rw [final]
    exact Option.some_ne_none words

theorem Filed.complete (filed : ensemble.Filed)
    (found : ensemble.strands[position]? = some strand) {promise : Word}
    {result : Option (Word × ExecState)}
    (live : ensemble.shared.heap.outcome promise = .ok result) :
    (ensemble.complete position strand promise).Filed := by
  have before := filed.finals (List.mem_of_getElem? found)
  obtain ⟨_, object, leads, holds⟩ := Heap.outcome_eq_ok.1 live
  refine ⟨filed.books.withHeap (filed.books.matched.modify leads rfl fun _ => nofun)
    fun handle => ?_, filed.swept, filed.duties, fun going => ?_, fun words final => ?_⟩
  · have totals := @Heap.total_change ensemble.shared.heap
      (ensemble.complete position strand promise).shared.heap (Payload.holds handle) _ _ leads _ rfl
    rw [holds] at totals
    exact totals
  · exact (filed.going going).modify leads rfl fun _ _ => nofun
  · have nothing : ensemble.finals = some words := final
    rw [before] at nothing
    cases nothing

/-- Freed streams are on their way to be closed. -/
theorem Filed.sweep (filed : ensemble.Filed) (safe : ensemble.Safe) : ensemble.sweep.Filed := by
  have wellFormed := safe.intact.wellFormed
  have heap := sweep_heap ensemble
  have platform : ensemble.shared.platform.SameRecord ensemble.sweep.shared.platform := by
    have same := @sweep_keeps _ (fun shared => (shared.platform.handles, shared.platform.record))
      (fun shared line => ?_) ensemble
    · exact ⟨congrArg Prod.fst same, congrArg Prod.snd same⟩
    · obtain ⟨platform, journal, ⟨handles, record⟩, logged⟩ := shared.log_around line
      rw [logged]
      exact Prod.ext handles record
  have books := filed.books.withPlatform platform
  constructor
  case books =>
    refine books.moved ?_ (fun handle => ?_) fun _ => rfl
    · rw [heap]
      exact books.matched.thin (Heap.thins_collect _ _)
    · change _ + ((((ensemble.swept ++ Heap.freedStreams
        (ensemble.shared.heap.collect ensemble.roots).2).map (Stream.holds handle)).sum) + _) = _
      have divided := Heap.total_collect (Payload.holds handle) ensemble.shared.heap ensemble.roots
      rw [heap, List.map_append, List.sum_append, Heap.sum_freedStreams]
      change _ + (_ + (ensemble.duties.map (Duty.holds handle)).sum) = _
      omega
  case swept =>
    intro stream member
    rcases List.mem_append.1 member with before | freed
    · exact (filed.swept stream before).mono fun _ earlier => platform.2.symm ▸ earlier
    · obtain ⟨entry, listed, holds⟩ := Heap.mem_freedStreams freed
      exact books.matched.freed wellFormed ensemble.roots listed stream holds
  case duties =>
    intro duty member
    exact (filed.duties duty member).mono fun _ earlier => platform.2.symm ▸ earlier
  case going =>
    intro going
    rw [heap]
    exact (filed.going going).thin (Heap.thins_collect _ _)
  case ending =>
    intro words final
    obtain ⟨empty, ahead⟩ := filed.ending words final
    refine ⟨empty, fun handle object stream found => ?_⟩
    rw [heap, Heap.collect_eq, Heap.lookup?_pace, Heap.lookup?_sweep_mark wellFormed] at found
    exact ahead handle object stream found.1

/-- Whoever begins to close a freed stream has then to release it, unless it is closed. -/
theorem Filed.claim (filed : ensemble.Filed) {stream : Stream}
    (found : ensemble.swept[position]? = some stream) : (ensemble.claim position stream).Filed := by
  have matched := filed.swept stream (List.mem_of_getElem? found)
  have erased : ∀ handle, ((ensemble.swept.eraseIdx position).map (Stream.holds handle)).sum +
      stream.holds handle = (ensemble.swept.map (Stream.holds handle)).sum :=
    fun handle => sum_map_eraseIdx (Stream.holds handle) found
  have rest : ∀ other ∈ ensemble.swept.eraseIdx position,
      other.Matches ensemble.shared.platform.record :=
    fun other member => filed.swept other (List.mem_of_mem_eraseIdx member)
  unfold Ensemble.claim
  cases closed : stream.closed with
  | true =>
    simp only [stream.holds_of_closed closed, Nat.add_zero] at erased
    simp only [if_true]
    refine ⟨filed.books.moved filed.books.matched (fun handle => ?_) fun _ => rfl, rest,
      filed.duties, filed.going, filed.ending⟩
    simp only [erased]
  | false =>
    simp only [stream.holds_of_unclosed closed] at erased
    simp only [Bool.false_eq_true, if_false]
    refine ⟨filed.books.moved filed.books.matched (fun handle => ?_) (fun handle => ?_), rest,
      fun duty member => ?_, filed.going, filed.ending⟩
    · have moved := erased handle
      have new : Duty.holds handle (released stream) = stream.has handle := rfl
      simp only [List.map_append, List.sum_append, List.map_cons, List.map_nil, List.sum_cons,
        List.sum_nil, new]
      omega
    · simp only [List.map_append, List.sum_append]
      rfl
    · rcases List.mem_append.1 member with before | new
      · exact filed.duties duty before
      · rw [List.mem_singleton.1 new]
        exact matched

/-- A stream is released, and then what goes with it is removed. -/
theorem Filed.discharge (filed : ensemble.Filed) {duty : Duty}
    (found : ensemble.duties[position]? = some duty) :
    (ensemble.discharge position duty).Filed := by
  have matched := filed.duties duty (List.mem_of_getElem? found)
  cases duty with
  | release stream =>
    have grown := stream.release_grown ensemble.shared.platform
    have closes : ∀ handle,
        ((ensemble.duties.set position (.discard stream)).map (Duty.holds handle)).sum +
          stream.has handle = (ensemble.duties.map (Duty.holds handle)).sum :=
      fun handle => sum_map_set (Duty.holds handle) found
    have awaits : ∀ handle,
        ((ensemble.duties.set position (.discard stream)).map (Duty.owes handle)).sum =
          (ensemble.duties.map (Duty.owes handle)).sum + stream.owes handle :=
      fun handle => sum_map_set (Duty.owes handle) found
    have aside : Books (fun handle => ((ensemble.swept.map (Stream.holds handle)).sum +
          ((ensemble.duties.set position (.discard stream)).map (Duty.holds handle)).sum) +
            stream.has handle)
        (fun handle => (ensemble.duties.map (Duty.owes handle)).sum) ensemble.shared.heap
        ensemble.shared.platform :=
      filed.books.moved filed.books.matched
        (fun handle => by rw [Nat.add_assoc _ _ (stream.has handle), closes]) fun _ => rfl
    have released := aside.released matched
    refine ⟨released.moved released.matched (fun _ => rfl) awaits,
      fun other member => (filed.swept other member).mono grown, fun duty member => ?_,
      filed.going, filed.ending⟩
    rcases List.mem_or_eq_of_mem_set member with before | rfl
    · exact (filed.duties duty before).mono grown
    · exact matched.mono grown
  | discard stream =>
    have grown := stream.discard_grown ensemble.shared.platform
    have closes : ∀ handle, ((ensemble.duties.eraseIdx position).map (Duty.holds handle)).sum =
        (ensemble.duties.map (Duty.holds handle)).sum :=
      fun handle => sum_map_eraseIdx (Duty.holds handle) found
    have awaits : ∀ handle, ((ensemble.duties.eraseIdx position).map (Duty.owes handle)).sum +
        stream.owes handle = (ensemble.duties.map (Duty.owes handle)).sum :=
      fun handle => sum_map_eraseIdx (Duty.owes handle) found
    have aside : Books (fun handle => (ensemble.swept.map (Stream.holds handle)).sum +
          ((ensemble.duties.eraseIdx position).map (Duty.holds handle)).sum)
        (fun handle => ((ensemble.duties.eraseIdx position).map (Duty.owes handle)).sum +
          stream.owes handle) ensemble.shared.heap ensemble.shared.platform :=
      filed.books.moved filed.books.matched (fun handle => by rw [closes]) awaits
    exact ⟨aside.discarded matched, fun other member => (filed.swept other member).mono grown,
      fun duty member => (filed.duties duty (List.mem_of_mem_eraseIdx member)).mono grown,
      filed.going, filed.ending⟩

theorem Filed.finish (filed : ensemble.Filed) (safe : ensemble.Safe)
    (empty : ensemble.strands = []) :
    Filed { ensemble with finals := some ensemble.shared.heap.streams } := by
  refine ⟨filed.books, filed.swept, filed.duties, nofun, ?_⟩
  rintro words ⟨⟩
  exact ⟨empty, fun handle object stream found holds _ =>
    Heap.exists_mem_streams safe.intact.wellFormed found holds⟩

/-- The end of the run goes on to the next stream. -/
theorem Filed.visit (filed : ensemble.Filed) {word : Word} {rest : List Word}
    (final : ensemble.finals = some (word :: rest)) : (ensemble.visit word rest).Filed := by
  obtain ⟨empty, ahead⟩ := filed.ending _ final
  rcases ensemble.visit_cases word rest with ⟨closed, same⟩ | ⟨stream, read, unclosed, same⟩
  · rw [same]
    refine ⟨filed.books, filed.swept, filed.duties, nofun, ?_⟩
    rintro words ⟨⟩
    refine ⟨empty, fun handle object stream found holds unclosed => ?_⟩
    obtain ⟨other, member, isRef, index, generation⟩ :=
      ahead handle object stream found holds unclosed
    refine ⟨other, (List.mem_cons.1 member).resolve_left ?_, isRef, index, generation⟩
    rintro rfl
    rw [← Heap.lookup?_congr _ index generation] at found
    rw [closed stream (Heap.stream_of_lookup? isRef found holds)] at unclosed
    cases unclosed
  · rw [same]
    obtain ⟨object, found, holds⟩ := Exec.exists_stream read
    have matched := filed.books.matched.lookup? found stream holds
    have heldBefore : ∀ handle, object.payload.holds handle = stream.has handle := by
      intro handle
      rw [holds]
      exact stream.holds_of_unclosed unclosed handle
    have heldAfter : ∀ handle,
        Payload.holds handle (.stream { stream with closed := true }) = 0 := fun _ => rfl
    refine ⟨filed.books.moved ?_ (fun handle => ?_) fun handle => ?_, filed.swept,
      fun duty member => ?_, nofun, ?_⟩
    · refine filed.books.matched.modify found (Heap.setPayload_slots _ _ _) ?_
      rintro other ⟨⟩
      exact matched
    · have totals := @Heap.total_change ensemble.shared.heap _ (Payload.holds handle) _ _ found _
        (Heap.setPayload_slots ensemble.shared.heap word (.stream { stream with closed := true }))
      have new : Duty.holds handle (released stream) = stream.has handle := rfl
      simp only [heldBefore, heldAfter] at totals
      simp only [List.map_append, List.sum_append, List.map_cons, List.map_nil, List.sum_cons,
        List.sum_nil, new]
      omega
    · simp only [List.map_append, List.sum_append]
      rfl
    · rcases List.mem_append.1 member with before | new
      · exact filed.duties duty before
      · rw [List.mem_singleton.1 new]
        exact matched
    · rintro words ⟨⟩
      refine ⟨empty, fun handle other held known holds unclosed => ?_⟩
      rw [Heap.lookup?_modify (Heap.lookup?_index_ne_zero found) (Heap.setPayload_slots _ _ _)]
        at known
      by_cases same : handle.index = word.toHandle.index
      · rw [if_pos same] at known
        obtain ⟨_, _, rfl⟩ := Option.map_eq_some_iff.1 known
        cases holds
        cases unclosed
      · rw [if_neg same] at known
        obtain ⟨place, member, isRef, index, generation⟩ :=
          ahead handle other held known holds unclosed
        refine ⟨place, (List.mem_cons.1 member).resolve_left ?_, isRef, index, generation⟩
        rintro rfl
        exact same index.symm

theorem Filed.moves (filed : ensemble.Filed) (safe : ensemble.Safe) (ledger : ensemble.Ledger)
    (room : ensemble.hasRoom = true) (moves : ensemble.Moves after) : after.Filed := by
  cases moves with
  | enter going =>
    exact filed.same rfl ⟨rfl, rfl⟩ rfl rfl rfl fun _ final => absurd going final
  | work found works => exact filed.work safe room found works
  | mark found =>
    exact filed.same rfl ⟨rfl, rfl⟩ rfl rfl rfl fun _ final => absurd (filed.finals
      (List.mem_of_getElem? found)) final
  | complete found _ _ promised =>
    obtain ⟨⟨result, live⟩, _⟩ :=
      (ledger.strands _ (List.mem_of_getElem? found)).promised _ promised
    exact filed.complete found live
  | close found =>
    exact filed.same rfl ⟨rfl, rfl⟩ rfl rfl rfl fun _ final => absurd (filed.finals
      (List.mem_of_getElem? found)) final
  | leave found =>
    exact filed.same rfl ⟨rfl, rfl⟩ rfl rfl rfl fun _ final => absurd (filed.finals
      (List.mem_of_getElem? found)) final
  | request => exact filed.same rfl ⟨rfl, rfl⟩ rfl rfl rfl fun empty _ => empty
  | outside => exact filed.same rfl ⟨rfl, rfl⟩ rfl rfl rfl fun empty _ => empty
  | sweep => exact filed.sweep safe
  | claim found => exact filed.claim found
  | discharge found => exact filed.discharge found
  | finish empty => exact filed.finish safe empty
  | visit final => exact filed.visit final

theorem filed_new {platform : Platform} (fresh : platform.record = []) (assembly : Assembly)
    (settings : Settings) (journal : Journal) :
    (Ensemble.new assembly settings platform journal).Filed := by
  have unwritten : ∀ event,
      event ∉ (Ensemble.new assembly settings platform journal).shared.platform.record := by
    intro event member
    have known : event ∈ platform.record := member
    rw [fresh] at known
    cases known
  have vacant : ∀ slot ∈ (Ensemble.new assembly settings platform journal).shared.heap.slots,
      ∀ object, slot.object = some object → False := by
    intro slot member
    cases (Array.mem_def.1 member)
  refine ⟨⟨?_, fun _ _ _ opened => absurd opened (unwritten _),
    fun slot member object found => (vacant slot member object found).elim, fun handle => ?_,
    fun _ _ _ opened => absurd opened (unwritten _), fun _ _ => rfl⟩,
    fun _ member => (nomatch member), fun _ member => (nomatch member),
    fun _ slot member object found => (vacant slot member object found).elim, nofun⟩
  · change FileEvent.Lawful platform.record
    rw [fresh]
    trivial
  · change 0 + (0 + 0) + platform.record.count _ = platform.record.countP _
    rw [fresh]
    rfl

/-! ## Files -/

theorem Filed.accounts (filed : ensemble.Filed)
    (opened : .opened handle path autoRemove ∈ ensemble.shared.platform.record) :
    ensemble.shared.heap.total (Payload.holds handle) +
        ((ensemble.swept.map (Stream.holds handle)).sum +
          (ensemble.duties.map (Duty.holds handle)).sum) +
      ensemble.shared.platform.record.count (.closed handle) = 1 := by
  have once := filed.books.lawful.countP_opens_le_one handle
  have known : 0 < ensemble.shared.platform.record.countP (FileEvent.opens handle) :=
    List.countP_pos_iff.2 ⟨_, opened, beq_self_eq_true handle⟩
  rw [filed.books.held handle]
  omega

theorem Filed.unreached (filed : ensemble.Filed)
    (closed : .closed handle ∈ ensemble.shared.platform.record) {word : Word} {stream : Stream}
    (reached : ensemble.shared.heap.Reached ensemble.roots word)
    (read : ensemble.shared.heap.stream word = .ok stream) : stream.handle? ≠ some handle := by
  intro same
  cases final : ensemble.finals with
  | none =>
    obtain ⟨object, found, holds⟩ := Exec.exists_stream read
    have unclosed := (filed.going final).lookup? found stream handle holds same
    have cost : object.payload.holds handle ≤ ensemble.shared.heap.total (Payload.holds handle) :=
      Heap.cost_le_total found
    have one : object.payload.holds handle = 1 := by
      rw [holds]
      exact (stream.holds_of_unclosed unclosed handle).trans (if_pos same)
    obtain ⟨path, autoRemove, opened⟩ := filed.books.lawful.opened_of_closed closed
    have accounts := filed.accounts opened
    have counted := List.count_pos_iff.2 closed
    omega
  | some words =>
    -- At the end of the run there is no root.
    have nobody : ensemble.roots = [] := by
      unfold roots
      rw [(filed.ending words final).1]
      rfl
    rw [nobody] at reached
    exact Heap.not_reached_nil reached

/-- A stream is in the heap, or on its way to be closed. -/
def Carries (ensemble : Ensemble) (stream : Stream) : Prop :=
  (∃ word, ensemble.shared.heap.stream word = .ok stream) ∨ stream ∈ ensemble.swept ∨
    .release stream ∈ ensemble.duties

theorem Filed.carried (filed : ensemble.Filed) (safe : ensemble.Safe)
    (opened : .opened handle path autoRemove ∈ ensemble.shared.platform.record)
    (unclosed : .closed handle ∉ ensemble.shared.platform.record) :
    ∃ stream, ensemble.Carries stream ∧ stream.handle? = some handle := by
  have accounts := filed.accounts opened
  rw [List.count_eq_zero.2 unclosed] at accounts
  by_cases inHeap : ensemble.shared.heap.total (Payload.holds handle) = 0
  · by_cases freed : (ensemble.swept.map (Stream.holds handle)).sum = 0
    · have due : (ensemble.duties.map (Duty.holds handle)).sum ≠ 0 := by omega
      obtain ⟨duty, member, counts⟩ := exists_of_sum_map_ne_zero due
      cases duty with
      | release stream => exact ⟨stream, .inr (.inr member), stream.handle?_of_has counts⟩
      | discard stream => exact absurd rfl counts
    · obtain ⟨stream, member, counts⟩ := exists_of_sum_map_ne_zero freed
      exact ⟨stream, .inr (.inl member), (stream.of_holds counts).2⟩
  · obtain ⟨place, object, found, counts⟩ :=
      Heap.exists_of_total_ne_zero safe.intact.wellFormed inHeap
    obtain ⟨stream, holds, _, same⟩ := Payload.of_holds counts
    obtain ⟨word, _, isRef, index, generation⟩ :=
      Heap.exists_mem_streams safe.intact.wellFormed found holds
    rw [← Heap.lookup?_congr _ index generation] at found
    exact ⟨stream, .inl ⟨word, Heap.stream_of_lookup? isRef found holds⟩, same⟩

theorem Filed.returned (filed : ensemble.Filed) (safe : ensemble.Safe)
    (returned : ensemble.Returned)
    (opened : .opened handle path autoRemove ∈ ensemble.shared.platform.record) :
    ensemble.shared.platform.record.count (.closed handle) = 1 ∧
      ensemble.shared.platform.record.countP (FileEvent.discards handle) =
        if (Stream.removal path autoRemove).isSome then 1 else 0 := by
  obtain ⟨_, final, swept, duties⟩ := returned
  have empty : ensemble.shared.heap.total (Payload.holds handle) = 0 := by
    by_contra counts
    obtain ⟨place, object, found, counts⟩ :=
      Heap.exists_of_total_ne_zero safe.intact.wellFormed counts
    obtain ⟨stream, holds, unclosed, _⟩ := Payload.of_holds counts
    obtain ⟨word, member, _⟩ := (filed.ending _ final).2 place object stream found holds unclosed
    cases member
  have closed : ensemble.shared.platform.record.count (.closed handle) = 1 := by
    have accounts := filed.accounts opened
    rw [empty, swept, duties] at accounts
    simpa using accounts
  have due := filed.books.due handle path autoRemove opened
  rw [duties, closed] at due
  exact ⟨closed, (Nat.zero_add _).symm.trans due⟩

/-! ## Every run -/

variable {assembly : Assembly} {settings : Settings}

/-- Whatever turns are taken, what happens to files follows what happened before: a file is closed
once, and only then removed. A closed file is one that no executor reaches, and one that is not
closed has its stream. When the run has returned, every file that was opened is closed, and its
removal was attempted once if it was asked for, unless the path is empty. -/
theorem files_closed_once {turns : List Turn} {platform : Platform} {journal : Journal}
    (fresh : platform.record = [])
    (ran : (Ensemble.new assembly settings platform journal).runWithin turns = some ensemble) :
    (∀ later event earlier, ensemble.shared.platform.record = later ++ event :: earlier →
      event.Follows earlier) ∧
    (∀ handle, .closed handle ∈ ensemble.shared.platform.record →
      ∀ word stream, ensemble.shared.heap.Reached ensemble.roots word →
        ensemble.shared.heap.stream word = .ok stream → stream.handle? ≠ some handle) ∧
    (∀ handle path autoRemove, .opened handle path autoRemove ∈ ensemble.shared.platform.record →
      .closed handle ∉ ensemble.shared.platform.record →
      ∃ stream, ensemble.Carries stream ∧ stream.handle? = some handle) ∧
    (ensemble.Returned → ∀ handle path autoRemove,
      .opened handle path autoRemove ∈ ensemble.shared.platform.record →
      ensemble.shared.platform.record.count (.closed handle) = 1 ∧
        ensemble.shared.platform.record.countP (FileEvent.discards handle) =
          if autoRemove = true ∧ path.isEmpty = false then 1 else 0) := by
  obtain ⟨safe, bounded, ledger, filed⟩ := @runWithin_keeps _ _
    (fun now => now.Safe ∧ now.Bounded assembly settings ∧ now.Ledger ∧ now.Filed)
    (fun _ _ ⟨safe, bounded, ledger, filed⟩ room moves => ⟨safe.moves room moves,
      bounded.moves moves, ledger.moves safe bounded room moves,
      filed.moves safe ledger room moves⟩) _
    ⟨safe_new assembly settings platform journal, bounded_new assembly settings platform journal,
      ledger_new assembly settings platform journal, filed_new fresh assembly settings journal⟩ ran
  refine ⟨fun later event earlier split => ?_, fun handle closed word stream reached read => ?_,
    fun handle path autoRemove opened unclosed => ?_,
    fun returned handle path autoRemove opened => ?_⟩
  · have lawful := filed.books.lawful
    rw [split] at lawful
    exact lawful.follows
  · exact filed.unreached closed reached read
  · exact filed.carried safe opened unclosed
  · obtain ⟨closed, discarded⟩ := filed.returned safe returned opened
    simp only [Stream.isSome_removal] at discarded
    exact ⟨closed, discarded⟩

/-- A file is opened that is to be removed when its stream is closed, and its stream is dropped. -/
def opening (path : Bytes) : Assembly where
  code := Bytes.ofList [4, 0, 0, 0, 0, 1, 0, 1, 0, 0, 148, 14, 20, 149]
  literals := #[path]
  entries := #[0]

/-- A collection frees the stream, and someone closes it while the run comes to its end. -/
def closing : List Turn :=
  [.enter 0, .strand 0 .issue, .strand 0 .issue, .strand 0 .issue, .strand 0 .issue, .sweep,
    .claim 0, .strand 0 .issue, .discharge 0, .strand 0 .leave, .finish, .discharge 0]

/-- The file is closed and removed. -/
theorem files_closed_once_freed :
    ∃ ensemble,
      (Ensemble.new (opening (Bytes.ofList [97])) { evalStack := 2 } default .off).runWithin
          closing = some ensemble ∧
        ensemble.shared.platform.record =
          [.discarded 0 (Bytes.ofList [97]), .closed 0, .opened 0 (Bytes.ofList [97]) true] ∧
        ensemble.Returned ∧ ensemble.shared.platform.record.count (.closed 0) = 1 := by
  have happened : ((Ensemble.new (opening (Bytes.ofList [97])) { evalStack := 2 } default
      .off).runWithin closing).any (fun ensemble => ensemble.shared.platform.record =
        [.discarded 0 (Bytes.ofList [97]), .closed 0, .opened 0 (Bytes.ofList [97]) true] ∧
          ensemble.Returned) = true := by
    decide +kernel
  obtain ⟨ensemble, ran, holds⟩ := (Option.any_eq_true _ _).1 happened
  obtain ⟨record, returned⟩ := of_decide_eq_true holds
  have opened : .opened 0 (Bytes.ofList [97]) true ∈ ensemble.shared.platform.record := by
    rw [record]
    exact List.mem_cons_of_mem _ (List.mem_cons_of_mem _ List.mem_cons_self)
  exact ⟨ensemble, ran, record, returned,
    ((files_closed_once rfl ran).2.2.2 returned 0 _ true opened).1⟩

/-- With an empty path the file is closed, but its removal is never attempted. -/
theorem emptyPath_not_removed :
    ∃ ensemble,
      (Ensemble.new (opening ByteArray.empty) { evalStack := 2 } default .off).runWithin closing =
          some ensemble ∧
        ensemble.Returned ∧ .opened 0 ByteArray.empty true ∈ ensemble.shared.platform.record ∧
        .closed 0 ∈ ensemble.shared.platform.record ∧
        ensemble.shared.platform.record.countP (FileEvent.discards 0) = 0 := by
  have happened : ((Ensemble.new (opening ByteArray.empty) { evalStack := 2 } default
      .off).runWithin closing).any (fun ensemble => ensemble.Returned ∧
        .opened 0 ByteArray.empty true ∈ ensemble.shared.platform.record ∧
        .closed 0 ∈ ensemble.shared.platform.record ∧
        ensemble.shared.platform.record.countP (FileEvent.discards 0) = 0) = true := by
    decide +kernel
  obtain ⟨ensemble, ran, holds⟩ := (Option.any_eq_true _ _).1 happened
  exact ⟨ensemble, ran, of_decide_eq_true holds⟩

end Ensemble

end WordMachine
