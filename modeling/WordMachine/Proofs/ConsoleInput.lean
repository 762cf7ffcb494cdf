import Mathlib.Logic.Function.Basic
import WordMachine.Proofs.HeapContents
import WordMachine.Proofs.InputBuffers
import WordMachine.Proofs.RenamedHeaps
import WordMachine.Proofs.SafeExecution
import WordMachine.Proofs.TextStorage
import WordMachine.Proofs.WordEncodings

/-!
Reads of console input. Calls for bytes and lines, and reads of streams that were opened on it, take
the input piece by piece: every byte goes to one call, in the order of the calls, and a call returns
what it took. A stream that finds the input at its end takes nothing more.
-/

namespace WordMachine

open Input (NextLine withoutEnding)

/-! ## Calls and their answers -/

/-- A call that reads console input. A stream is given by its word. -/
inductive InputCall where
  | char
  | line
  | streamChar (stream : Word)
  | streamString (stream : Word) (limit : Int32)

/-- What a call returns. -/
inductive InputAnswer where
  | char (byte : UInt8)
  | text (bytes : List UInt8)

namespace InputCall

variable {rest after : List UInt8}

def code : InputCall → PlatformCall
  | .char => .readChar
  | .line => .readLine
  | .streamChar _ => .streamReadChar
  | .streamString _ _ => .streamReadString

def operands : InputCall → List Word
  | .char => []
  | .line => []
  | .streamChar stream => [stream]
  | .streamString stream limit => [stream, .ofInt limit]

def stream? : InputCall → Option Word
  | .char => none
  | .line => none
  | .streamChar stream => some stream
  | .streamString stream _ => some stream

/-- What an executor does to make a call whose operands it has on its stack. -/
def run (call : InputCall) : Exec Unit := do
  Exec.platformCall call.code
  Exec.settle

/-- What a read of up to `count` bytes takes from a stream, given the input that is left and whether
the stream is valid; and what is left and whether it is valid then. A read may take fewer bytes, but
none only from an input at its end, which makes the stream invalid. -/
inductive Draws (count : Nat) : List UInt8 → Bool → List UInt8 → List UInt8 → Bool → Prop
  | some {piece after : List UInt8} :
      piece ≠ [] → piece.length ≤ count → Draws count (piece ++ after) true piece after true
  | ended : 0 < count → Draws count [] true [] [] false
  | nothing {rest : List UInt8} {valid : Bool} :
      valid = false ∨ count = 0 → Draws count rest valid [] rest valid

/-- What a call takes and returns, given the input that is left and the streams that are valid; and
what is left and valid then. -/
inductive Serves : List UInt8 → (Word → Bool) → InputCall → List UInt8 → InputAnswer →
    List UInt8 → (Word → Bool) → Prop
  | char {byte : UInt8} {after : List UInt8} {valid : Word → Bool} :
      Serves (byte :: after) valid .char [byte] (.char byte) after valid
  | charEnd {valid : Word → Bool} :
      Serves [] valid .char [] (.char 0) [] valid
  | line {piece after : List UInt8} {valid : Word → Bool} :
      NextLine (piece ++ after) piece →
      Serves (piece ++ after) valid .line piece (.text (withoutEnding (withoutEnding piece 10) 13))
        after valid
  | streamChar {stream : Word} {rest piece after : List UInt8} {valid : Word → Bool}
      {stays : Bool} :
      Draws 1 rest (valid stream) piece after stays →
      Serves rest valid (.streamChar stream) piece (.char (piece.headD 0)) after
        (Function.update valid stream stays)
  | streamString {stream : Word} {limit : Int32} {rest piece after : List UInt8}
      {valid : Word → Bool} {stays : Bool} :
      Draws limit.toInt.toNat rest (valid stream) piece after stays →
      Serves rest valid (.streamString stream limit) piece (.text piece) after
        (Function.update valid stream stays)

/-- What calls take and return one after another. -/
inductive ServesAll : List UInt8 → (Word → Bool) → List InputCall → List (List UInt8) →
    List InputAnswer → List UInt8 → (Word → Bool) → Prop
  | nil {rest : List UInt8} {valid : Word → Bool} : ServesAll rest valid [] [] [] rest valid
  | cons {rest middle after piece : List UInt8} {valid between later : Word → Bool}
      {call : InputCall} {calls : List InputCall} {pieces : List (List UInt8)}
      {answer : InputAnswer} {answers : List InputAnswer} :
      Serves rest valid call piece answer middle between →
      ServesAll middle between calls pieces answers after later →
      ServesAll rest valid (call :: calls) (piece :: pieces) (answer :: answers) after later

theorem Draws.rest_eq {count : Nat} {piece : List UInt8} {valid later : Bool}
    (draws : Draws count rest valid piece after later) : rest = piece ++ after := by
  cases draws <;> rfl

theorem Serves.rest_eq {piece : List UInt8} {valid later : Word → Bool} {call : InputCall}
    {answer : InputAnswer} (serves : Serves rest valid call piece answer after later) :
    rest = piece ++ after := by
  cases serves with
  | streamChar draws => exact draws.rest_eq
  | streamString draws => exact draws.rest_eq
  | _ => rfl

/-- The pieces that calls take are what comes first, in their order. -/
theorem ServesAll.rest_eq {valid later : Word → Bool} {calls : List InputCall}
    {pieces : List (List UInt8)} {answers : List InputAnswer}
    (serves : ServesAll rest valid calls pieces answers after later) :
    rest = pieces.flatten ++ after := by
  induction serves with
  | nil => rfl
  | cons first _ ih =>
    rw [first.rest_eq, ih, List.flatten_cons, List.append_assoc]

/-! ## Executors -/

/-- Whether a word is what a call returns. -/
def Shows (heap : Heap) (word : Word) : InputAnswer → Prop
  | .char byte => word = .ofInt (Int32.ofNat byte.toNat)
  | .text bytes => ∃ text, heap.text word = .ok text ∧ Bytes.toList text = bytes

/-- Whether an executor that makes a call gets an answer in place of the operands. -/
def Answers (executor : Executor) (shared : Shared) (call : InputCall) (answer : InputAnswer)
    (later : Shared) : Prop :=
  ∃ word, call.run ⟨executor.withOperands call.operands, shared⟩ =
      .ok () ⟨executor.withOperands [word], later⟩ ∧ Shows later.heap word answer

/-- Whether an executor ends at a call, for lack of room for the answer. -/
def Ends (executor : Executor) (shared : Shared) (call : InputCall) (later : Shared) : Prop :=
  ∃ ended, call.run ⟨executor.withOperands call.operands, shared⟩ = .ok () ⟨ended, later⟩ ∧
    ended.state = .allocFailed

/-- Calls of executors one after another, until one ends its executor. -/
inductive Runs : Shared → List (Executor × InputCall) → List InputAnswer → Shared → Prop
  | done {shared : Shared} : Runs shared [] [] shared
  | next {executor : Executor} {shared middle later : Shared} {call : InputCall}
      {calls : List (Executor × InputCall)} {answer : InputAnswer} {answers : List InputAnswer} :
      Answers executor shared call answer middle → Runs middle calls answers later →
      Runs shared ((executor, call) :: calls) (answer :: answers) later
  | ended {executor : Executor} {shared later : Shared} {call : InputCall}
      {calls : List (Executor × InputCall)} :
      Ends executor shared call later → Runs shared ((executor, call) :: calls) [] later

/-- An executor that runs, with room for the operands of a call. -/
structure Ready (executor : Executor) : Prop where
  running : executor.state = .running
  wait : executor.wait = none
  stack : executor.eval.items.size + 2 ≤ executor.eval.capacity

def OpenOn (heap : Heap) (streams : List Word) (valid : Word → Bool) : Prop :=
  ∀ word ∈ streams, ∃ stream, heap.Contains word (.stream stream) ∧
    stream.endpoint = .channel (.console .input) ∧ stream.isValid = valid word

/-- A state in which the console input is read, also through streams. -/
structure Serving (streams : List Word) (valid : Word → Bool) (shared : Shared) : Prop where
  wellFormed : shared.heap.WellFormed
  sound : shared.platform.input.Sound
  streams : OpenOn shared.heap streams valid

/-! ### What a call leaves of the heap -/

section Heaps

variable {heap after : Heap} {streams : List Word} {valid : Word → Bool} {word : Word}

theorem OpenOn.allocated {object : Object} (openOn : OpenOn heap streams valid)
    (allocated : Heap.Allocated heap after word object) : OpenOn after streams valid := by
  intro other member
  obtain ⟨stream, contains, console⟩ := openOn other member
  exact ⟨stream, allocated.contains contains, console⟩

theorem OpenOn.setText {length freed : Nat} {text : Bytes} (openOn : OpenOn heap streams valid)
    (blank : heap.Contains word (.blank length)) :
    OpenOn (heap.setText word text freed) streams valid := by
  intro other member
  obtain ⟨stream, contains, console⟩ := openOn other member
  obtain ⟨_, _, later⟩ := Heap.contains_modify blank (Heap.setText_slots heap word text freed)
    contains
  refine ⟨stream, ?_, console⟩
  rw [if_neg fun index => nomatch contains.of_index_eq blank index] at later
  exact later

theorem OpenOn.setStream {stream next : Stream} (openOn : OpenOn heap streams valid)
    (contains : heap.Contains word (.stream stream))
    (console : next.endpoint = .channel (.console .input)) :
    OpenOn (heap.setPayload word (.stream next)) streams
      (Function.update valid word next.isValid) := by
  intro other member
  obtain ⟨otherStream, otherContains, otherConsole, otherValid⟩ := openOn other member
  obtain ⟨_, _, later⟩ := Heap.contains_modify contains (Heap.setPayload_slots heap word _)
    otherContains
  by_cases index : other.toHandle.index = word.toHandle.index
  · have same : other = word :=
      Word.eq_of_toHandle (Heap.contains_iff.1 otherContains).1 (Heap.contains_iff.1 contains).1
        index (otherContains.generation_eq contains index)
    rw [if_pos index] at later
    exact ⟨next, later, console, by rw [same, Function.update_self]⟩
  · have different : other ≠ word := fun same => index (by rw [same])
    rw [if_neg index] at later
    exact ⟨otherStream, later, otherConsole, by rw [otherValid, Function.update_of_ne different]⟩

end Heaps

end InputCall

/-! ## Reads -/

open InputCall (Draws Serves Serving Answers Ends Ready Shows)

structure Stream.DrawsUpTo (stream : Stream) (platform : Platform) (count : Nat) (data : Bytes)
    (next : Stream) (input : Input) : Prop where
  read : stream.read platform count = (some data, next, { platform with input })
  console : next.endpoint = .channel (.console .input)
  sound : input.Sound
  draws : Draws count platform.input.rest stream.isValid (Bytes.toList data) input.rest next.isValid

theorem Stream.exists_drawsUpTo {stream : Stream} {platform : Platform}
    (sound : platform.input.Sound) (console : stream.endpoint = .channel (.console .input))
    (count : Nat) : ∃ data next input, stream.DrawsUpTo platform count data next input := by
  have unchanged (quiet : stream.isValid = false ∨ count = 0)
      (read : stream.read platform count = (some ByteArray.empty, stream, platform)) :
      ∃ data next input, stream.DrawsUpTo platform count data next input :=
    ⟨_, stream, platform.input, read, console, sound, .nothing quiet⟩
  cases valid : stream.isValid with
  | false =>
    refine unchanged (.inl valid) ?_
    simp [Stream.read, Stream.channel?, console, valid]
  | true =>
    by_cases none : count = 0
    · refine unchanged (.inr none) ?_
      simp [Stream.read, Stream.channel?, console, valid, none]
    · obtain ⟨handsOut, size, more⟩ := Input.readsUpTo_read sound (Nat.pos_of_ne_zero none)
      have same : stream.withChannel (.console .input) = stream := by
        rw [Stream.withChannel, ← console]
      generalize taken : platform.input.read count = answer at handsOut size more
      obtain ⟨data, input⟩ := answer
      have kept := handsOut.rest
      by_cases empty : data.isEmpty = true
      · have nothing : data.size = 0 := by simpa [ByteArray.isEmpty] using empty
        have ended : platform.input.rest = [] := by
          by_contra left
          exact more left nothing
        refine ⟨ByteArray.empty, stream.invalidate, input, ?_, console, handsOut.sound, ?_⟩
        · simp [Stream.read, Stream.channel?, console, valid, none, Platform.read, taken, empty,
            same]
        · rw [ended] at kept ⊢
          rw [(List.append_eq_nil_iff.1 kept.symm).2, valid]
          exact .ended (Nat.pos_of_ne_zero none)
      · refine ⟨data, stream, input, ?_, console, handsOut.sound, ?_⟩
        · simp [Stream.read, Stream.channel?, console, valid, none, Platform.read, taken, empty,
            same]
        · rw [valid, kept]
          refine .some (fun nothing => empty ?_) size
          have length := congrArg List.length nothing
          rw [Bytes.length_toList] at length
          simpa [ByteArray.isEmpty] using length

namespace Exec

variable {executor : Executor} {shared : Shared} {session : Session} {word : Word}
variable {β : Type}

theorem peekBehind_push {below : Array Word}
    (items : session.executor.eval.items = below.push word) :
    peekBehind 0 session = .ok word session := by
  have peeked : session.executor.eval.peekBehind 0 = .ok word := by
    unfold EvalStack.peekBehind
    simp [items]
  unfold peekBehind
  simp only [peeked]

section Below

variable {below : Array Word} {top : Word}

theorem getElem_push_push (inside : below.size < ((below.push word).push top).size) :
    ((below.push word).push top)[below.size] = word := by
  rw [Array.getElem_push_lt (by simp), Array.getElem_push_eq]

theorem peekBehind_push_push (items : session.executor.eval.items = (below.push word).push top) :
    peekBehind 1 session = .ok word session := by
  have peeked : session.executor.eval.peekBehind 1 = .ok word := by
    unfold EvalStack.peekBehind
    simp [items, getElem_push_push]
  unfold peekBehind
  simp only [peeked]

theorem popAt_push_push (items : session.executor.eval.items = (below.push word).push top) :
    popAt 1 session = .ok word (Evaluation.withOperands session (below.push top)) := by
  have erased : ((below.push word).push top).eraseIdx below.size (by simp) =
      below.push top := by
    apply Array.toList_inj.1
    simp [List.eraseIdx_append_of_length_le]
  have popped : session.executor.eval.popAt 1 =
      .ok (word, ⟨session.executor.eval.capacity, below.push top⟩) := by
    unfold EvalStack.popAt
    simp [items, getElem_push_push, erased]
  unfold popAt onEval
  simp only [popped]
  rfl

end Below

/-- The state once a stream has been read. -/
def withRead (shared : Shared) (word : Word) (next : Stream) (input : Input) : Shared :=
  { shared with
    heap := shared.heap.setPayload word (.stream next)
    platform := { shared.platform with input } }

theorem look_stream {stream : Stream}
    (contains : session.shared.heap.Contains word (.stream stream)) :
    look (·.stream word) session = .ok stream session := by
  obtain ⟨isRef, size, found⟩ := Heap.contains_iff.1 contains
  exact Evaluation.exec_look (·.stream word) (Heap.stream_of_lookup? isRef found rfl)

theorem platform_bind (next : Platform → Exec β) (session : Session) :
    (platform >>= next) session = next session.shared.platform session := rfl

theorem readStream_eq {stream next : Stream} {depth count : Nat} {data : Bytes} {input : Input}
    (peeked : peekBehind depth session = .ok word session)
    (contains : session.shared.heap.Contains word (.stream stream))
    (draws : stream.DrawsUpTo session.shared.platform count data next input) :
    readStream depth count session =
      .ok (some data) ⟨session.executor, withRead session.shared word next input⟩ := by
  unfold readStream
  rw [Evaluation.exec_bind peeked, Evaluation.exec_bind (look_stream contains), platform_bind,
    draws.read]
  rfl

theorem log_input (shared : Shared) (line : Unit → Bytes) :
    (shared.log line).platform.input = shared.platform.input := by
  unfold Shared.log
  split <;> rfl

/-- An object is made, or a limit of the heap leaves no room for it. -/
theorem allocate?_eq (executor : Executor) (shared : Shared) (payload : Payload) :
    (∃ later, allocate? payload ⟨executor, shared⟩ =
        .ok (some (shared.heap.allocate payload).1) ⟨executor, later⟩ ∧
      later.heap = (shared.heap.allocate payload).2 ∧
      later.platform.input = shared.platform.input) ∨
    0 < shared.heap.limit ∧
      allocate? payload ⟨executor, shared⟩ = .ok none ⟨executor, shared⟩ := by
  unfold allocate?
  dsimp only
  by_cases room : shared.heap.hasRoom (Heap.headerSize + payload.size) = true
  · rw [if_pos room]
    exact .inl ⟨_, rfl, Shared.log_heap _ _, log_input _ _⟩
  · rw [if_neg room]
    refine .inr ⟨?_, rfl⟩
    by_contra unlimited
    refine room ?_
    rw [Heap.hasRoom, decide_eq_true (Int.not_lt.1 unlimited), Bool.true_or]

def waiting (executor : Executor) (wait : Wait) : Executor :=
  { executor with state := .paused, wait := some wait }

def resumed (executor : Executor) : Executor :=
  { executor with state := .running, wait := none }

theorem resumed_waiting (running : executor.state = .running) (wait : executor.wait = none)
    (pending : Wait) : resumed (waiting executor pending) = executor := by
  change { executor with state := .running, wait := none } = executor
  rw [← running, ← wait]

/-- The state once console input has been read. -/
def withInput (shared : Shared) (input : Input) : Shared :=
  { shared with platform := { shared.platform with input } }

theorem setInput_bind (input : Input) (next : Unit → Exec β) (executor : Executor)
    (shared : Shared) :
    (modifyPlatform (fun platform => { platform with input }) >>= next) ⟨executor, shared⟩ =
      next () ⟨executor, withInput shared input⟩ := rfl

theorem setHeap_bind (heap : Heap) (next : Unit → Exec β) (executor : Executor) (shared : Shared) :
    (modifyHeap (fun _ => heap) >>= next) ⟨executor, shared⟩ =
      next () ⟨executor, { shared with heap }⟩ := rfl

theorem resume_bind (next : Unit → Exec β) (executor : Executor) (shared : Shared) :
    (resume >>= next) ⟨executor, shared⟩ = next () ⟨resumed executor, shared⟩ := rfl

theorem attemptConsoleChar_eq (executor : Executor) (shared : Shared) :
    attemptConsoleChar ⟨executor, shared⟩ =
      pushInt (Int32.ofNat (shared.platform.input.readByte.1.getD 0).toNat)
        ⟨resumed executor, withInput shared shared.platform.input.readByte.2⟩ := by
  unfold attemptConsoleChar
  rw [platform_bind]
  generalize shared.platform.input.readByte = outcome
  obtain ⟨byte, input⟩ := outcome
  dsimp only
  rw [setInput_bind, resume_bind]
  cases byte <;> rfl

theorem attemptConsoleLine_eq (executor : Executor) (shared : Shared) :
    attemptConsoleLine ⟨executor, shared⟩ =
      pushString shared.platform.input.readLine.1
        ⟨resumed executor, withInput shared shared.platform.input.readLine.2⟩ := by
  unfold attemptConsoleLine
  rw [platform_bind]
  generalize shared.platform.input.readLine = outcome
  obtain ⟨line, input⟩ := outcome
  dsimp only
  rw [setInput_bind, resume_bind]

end Exec

/-! ## Calls -/

namespace InputCall

variable {executor : Executor} {shared : Shared} {streams : List Word} {valid : Word → Bool}
variable {word : Word} {call : InputCall}

/-- What is left of the console input. -/
def unread (shared : Shared) : List UInt8 :=
  shared.platform.input.rest

/-- A state like the one before, with one object more at most. -/
structure Leaves (streams : List Word) (valid : Word → Bool) (shared later : Shared) : Prop where
  serving : Serving streams valid later
  slots : later.heap.slots.size ≤ shared.heap.slots.size + 1
  limit : later.heap.limit = shared.heap.limit

def Served (streams : List Word) (valid : Word → Bool) (executor : Executor) (shared : Shared)
    (call : InputCall) : Prop :=
  ∃ piece answer between later,
    Serves (unread shared) valid call piece answer (unread later) between ∧
    Answers executor shared call answer later ∧ Leaves streams between shared later

/-- A call that ends execution in a heap that has a limit. It has taken a line that has no place in
the heap, or nothing. -/
def Dropped (executor : Executor) (shared : Shared) (call : InputCall) : Prop :=
  0 < shared.heap.limit ∧ ∃ lost later, Ends executor shared call later ∧
    (lost = [] ∨ NextLine (unread shared) lost) ∧ unread shared = lost ++ unread later

theorem Ready.resumed (ready : Ready executor) (words : List Word) (pending : Wait) :
    Exec.resumed (Exec.waiting (executor.withOperands words) pending) =
      executor.withOperands words :=
  @Exec.resumed_waiting (executor.withOperands words) ready.running ready.wait pending

theorem run_eq {session : Session} {pending : Wait} (called : Exec.platformCall call.code session =
      .ok () ⟨Exec.waiting executor pending, shared⟩) :
    call.run session = Exec.attempt pending ⟨Exec.waiting executor pending, shared⟩ := by
  unfold run
  rw [Evaluation.exec_bind called]
  rfl

theorem run_eq_of_ended {session after : Session}
    (called : Exec.platformCall call.code session = .ok () after)
    (wait : after.executor.wait = none) : call.run session = .ok () after := by
  unfold run
  rw [Evaluation.exec_bind called, Exec.settle_eq wait]

theorem run_char (executor : Executor) (shared : Shared) :
    InputCall.char.run ⟨executor, shared⟩ =
      Exec.attemptConsoleChar ⟨Exec.waiting executor .consoleChar, shared⟩ :=
  @run_eq executor shared .char _ .consoleChar rfl

theorem run_line (executor : Executor) (shared : Shared) :
    InputCall.line.run ⟨executor, shared⟩ =
      Exec.attemptConsoleLine ⟨Exec.waiting executor .consoleLine, shared⟩ :=
  @run_eq executor shared .line _ .consoleLine rfl

theorem withOperands_nil (executor : Executor) : executor.withOperands [] = executor := rfl

theorem served_char (ready : Ready executor) (serving : Serving streams valid shared) :
    Served streams valid executor shared .char := by
  obtain ⟨handsOut, ended⟩ := Input.handsOut_readByte serving.sound
  have runs := run_char executor shared
  rw [Exec.attemptConsoleChar_eq, Exec.resumed_waiting ready.running ready.wait] at runs
  have room := ready.stack
  generalize shared.platform.input.readByte = outcome at handsOut ended runs
  obtain ⟨byte, input⟩ := outcome
  have kept : unread shared = byte.toList ++ input.rest := handsOut.rest
  refine ⟨byte.toList, .char (byte.getD 0), valid, Exec.withInput shared input, ?_, ⟨_, ?_, rfl⟩,
    ⟨⟨serving.wellFormed, handsOut.sound, serving.streams⟩, Nat.le_succ _, rfl⟩⟩
  · change Serves _ _ _ _ _ input.rest _
    rw [kept]
    cases byte with
    | some byte => exact .char
    | none =>
      have left : input.rest = [] := kept.symm.trans (ended rfl)
      rw [left]
      exact .charEnd
  · rw [operands, withOperands_nil, runs, ← Exec.push_eq (by omega)]
    rfl

theorem Serving.allocate {later : Shared} {payload : Payload}
    (serving : Serving streams valid shared) (numbers : shared.heap.slots.size + 1 < 2 ^ 32)
    (heap : later.heap = (shared.heap.allocate payload).2) (sound : later.platform.input.Sound) :
    Leaves streams valid shared later where
  serving := {
    wellFormed := heap ▸ serving.wellFormed.allocate numbers payload
    sound := sound
    streams := heap ▸ serving.streams.allocated
      (Heap.allocate_allocated serving.wellFormed numbers payload) }
  slots := heap ▸ Exec.allocate_size shared.heap payload
  limit := heap ▸ Heap.allocate_limit shared.heap payload

theorem text_of_contains {heap : Heap} {text : Bytes}
    (contains : heap.Contains word (.string text)) : heap.text word = .ok text := by
  obtain ⟨size, found⟩ := contains
  unfold Heap.text
  rw [found]

theorem served_line (ready : Ready executor) (serving : Serving streams valid shared)
    (numbers : shared.heap.slots.size + 1 < 2 ^ 32) :
    Served streams valid executor shared .line ∨ Dropped executor shared .line := by
  obtain ⟨piece, nextLine, handsOut, line⟩ := Input.handsOut_readLine serving.sound
  have runs := run_line executor shared
  rw [Exec.attemptConsoleLine_eq, Exec.resumed_waiting ready.running ready.wait] at runs
  unfold Exec.pushString Exec.pushNew at runs
  have room := ready.stack
  generalize shared.platform.input.readLine = outcome at handsOut line runs
  obtain ⟨text, input⟩ := outcome
  have kept : unread shared = piece ++ input.rest := handsOut.rest
  have sound : input.Sound := handsOut.sound
  rcases Exec.allocate?_eq executor (Exec.withInput shared input) (.string text) with
    ⟨later, made, heap, same⟩ | ⟨limited, full⟩
  · left
    have allocated := Heap.allocate_allocated serving.wellFormed numbers (.string text)
    have left : unread later = input.rest := congrArg Input.rest same
    refine ⟨piece, .text (withoutEnding (withoutEnding piece 10) 13), valid, later, ?_,
      ⟨(shared.heap.allocate (.string text)).1, ?_, text, text_of_contains ?_, line⟩,
      serving.allocate numbers heap (same ▸ sound)⟩
    · change NextLine (unread shared) piece at nextLine
      rw [left]
      rw [kept] at nextLine ⊢
      exact .line nextLine
    · rw [operands, withOperands_nil, runs, Evaluation.exec_bind made, ← Exec.push_eq (by omega)]
      rfl
    · rw [heap]
      exact allocated.contains_new
  · right
    rw [Evaluation.exec_bind full] at runs
    refine ⟨limited, piece, Exec.withInput shared input, ⟨executor.fail .allocFailed, runs, ?_⟩,
      .inr nextLine, kept⟩
    rw [Executor.fail, ready.running]

theorem size_setText (heap : Heap) (word : Word) (text : Bytes) (freed : Nat) :
    (heap.setText word text freed).slots.size = heap.slots.size :=
  Array.size_modify ..

theorem size_setPayload (heap : Heap) (word : Word) (payload : Payload) :
    (heap.setPayload word payload).slots.size = heap.slots.size :=
  Array.size_modify ..

theorem Serving.read {stream next : Stream} {count : Nat} {data : Bytes} {input : Input}
    (serving : Serving streams valid shared) (contains : shared.heap.Contains word (.stream stream))
    (draws : stream.DrawsUpTo shared.platform count data next input) :
    Serving streams (Function.update valid word next.isValid)
      (Exec.withRead shared word next input) where
  wellFormed := serving.wellFormed.setPayload word (.stream next)
  sound := draws.sound
  streams := serving.streams.setStream contains draws.console

theorem headD_toList (data : Bytes) : (Bytes.toList data).headD 0 = data[0]?.getD 0 := by
  rw [List.headD_eq_head?_getD, List.head?_eq_getElem?, Bytes.getElem?_toList]

section Stream

variable {word : Word} {stream next : Stream} {data : Bytes} {input : Input}

theorem attemptReadChar_eq (ready : Ready executor)
    (contains : shared.heap.Contains word (.stream stream))
    (draws : stream.DrawsUpTo shared.platform 1 data next input) :
    Exec.attemptReadChar ⟨Exec.waiting (executor.withOperands [word]) .readChar, shared⟩ =
      Exec.pushInt (Int32.ofNat ((Bytes.toList data).headD 0).toNat)
        ⟨executor, Exec.withRead shared word next input⟩ := by
  have single (pending : Wait) :
      (Exec.waiting (executor.withOperands [word]) pending).eval.items =
        executor.eval.items.push word := rfl
  have read := @Exec.readStream_eq
    ⟨Exec.waiting (executor.withOperands [word]) .readChar, shared⟩ word stream next 0 1 data input
    (Exec.peekBehind_push (single _)) contains draws
  have popped : Exec.pop ⟨executor.withOperands [word], Exec.withRead shared word next input⟩ =
      .ok word ⟨executor, Exec.withRead shared word next input⟩ :=
    Evaluation.exec_pop (single .readChar)
  unfold Exec.attemptReadChar
  rw [Evaluation.exec_bind read]
  dsimp only
  rw [Exec.resume_bind, ready.resumed, Evaluation.exec_bind popped, headD_toList]
  cases data[0]? <;> rfl

theorem peekStream_eq (contains : shared.heap.Contains word (.stream stream)) :
    Exec.peekStream 0 ⟨executor.withOperands [word], shared⟩ =
      .ok stream ⟨executor.withOperands [word], shared⟩ := by
  unfold Exec.peekStream
  rw [Evaluation.exec_bind (Exec.peekBehind_push rfl)]
  exact Exec.look_stream contains

theorem run_streamChar (contains : shared.heap.Contains word (.stream stream)) :
    (InputCall.streamChar word).run ⟨executor.withOperands [word], shared⟩ =
      Exec.attemptReadChar ⟨Exec.waiting (executor.withOperands [word]) .readChar, shared⟩ := by
  refine @run_eq (executor.withOperands [word]) shared (.streamChar word) _ .readChar ?_
  change (Exec.peekStream 0 >>= fun _ => Exec.stay .readChar) _ = _
  rw [Evaluation.exec_bind (peekStream_eq contains)]
  rfl

theorem fill_blank {heap : Heap} {made : Word} {length : Nat}
    (blank : heap.Contains made (.blank length)) (text : Bytes) :
    heap.fill made text = .ok (heap.setText made text (length - text.size)) ∧
      (heap.setText made text (length - text.size)).Contains made (.string text) := by
  obtain ⟨size, found⟩ := blank
  obtain ⟨_, _, later⟩ := Heap.contains_modify ⟨size, found⟩
    (Heap.setText_slots heap made text (length - text.size)) ⟨size, found⟩
  rw [if_pos rfl] at later
  refine ⟨?_, later⟩
  unfold Heap.fill
  rw [found]

theorem attemptReadString_eq {made : Word} {limit : Nat} (ready : Ready executor)
    (contains : shared.heap.Contains word (.stream stream))
    (draws : stream.DrawsUpTo shared.platform limit data next input)
    (blank : (Exec.withRead shared word next input).heap.Contains made (.blank limit)) :
    Exec.attemptReadString limit
        ⟨Exec.waiting (executor.withOperands [word, made]) (.readString limit), shared⟩ =
      .ok () ⟨executor.withOperands [made], { Exec.withRead shared word next input with
        heap := (Exec.withRead shared word next input).heap.setText made data
          (limit - data.size) }⟩ := by
  generalize left : Exec.withRead shared word next input = later at blank ⊢
  have pair (pending : Wait) :
      (Exec.waiting (executor.withOperands [word, made]) pending).eval.items =
        (executor.eval.items.push word).push made := rfl
  have read := @Exec.readStream_eq
    ⟨Exec.waiting (executor.withOperands [word, made]) (.readString limit), shared⟩ word stream next
    1 limit data input (Exec.peekBehind_push_push (pair _)) contains draws
  rw [left] at read
  have peeked : Exec.peek ⟨executor.withOperands [word, made], later⟩ =
      .ok made ⟨executor.withOperands [word, made], later⟩ :=
    Exec.peekBehind_push (pair .readChar)
  have filled : Exec.look (·.fill made data) ⟨executor.withOperands [word, made], later⟩ =
      .ok (later.heap.setText made data (limit - data.size))
        ⟨executor.withOperands [word, made], later⟩ :=
    Evaluation.exec_look (·.fill made data) (fill_blank blank data).1
  unfold Exec.attemptReadString
  rw [Evaluation.exec_bind read]
  dsimp only
  rw [Exec.resume_bind, ready.resumed, Evaluation.exec_bind peeked, Evaluation.exec_bind filled,
    Exec.setHeap_bind]
  have popped : Exec.popAt 1 ⟨executor.withOperands [word, made],
      { later with heap := later.heap.setText made data (limit - data.size) }⟩ =
        .ok word ⟨executor.withOperands [made],
          { later with heap := later.heap.setText made data (limit - data.size) }⟩ :=
    Exec.popAt_push_push (pair .readChar)
  rw [Evaluation.exec_bind popped]
  rfl

end Stream

theorem served_streamChar (ready : Ready executor) (serving : Serving streams valid shared)
    (member : word ∈ streams) : Served streams valid executor shared (.streamChar word) := by
  obtain ⟨stream, contains, console, isValid⟩ := serving.streams word member
  obtain ⟨data, next, input, draws⟩ := Stream.exists_drawsUpTo serving.sound console 1
  have room := ready.stack
  refine ⟨Bytes.toList data, .char ((Bytes.toList data).headD 0), _,
    Exec.withRead shared word next input, ?_, ⟨_, ?_, rfl⟩, serving.read contains draws,
    Nat.le_succ_of_le (Nat.le_of_eq (size_setPayload ..)), rfl⟩
  · exact .streamChar (isValid ▸ draws.draws)
  · rw [operands, run_streamChar contains, attemptReadChar_eq ready contains draws,
      ← Exec.push_eq (by omega)]
    rfl

/-- A call for a string makes room for it first, and reads only then. -/
theorem readString_eq {limit : Int32} {stream : Stream} (ready : Ready executor)
    (contains : shared.heap.Contains word (.stream stream)) :
    (∃ later, Exec.readString ⟨executor.withOperands [word, .ofInt limit], shared⟩ =
        .ok () ⟨Exec.waiting (executor.withOperands
          [word, (shared.heap.allocate (.blank limit.toInt.toNat)).1])
            (.readString limit.toInt.toNat), later⟩ ∧
      later.heap = (shared.heap.allocate (.blank limit.toInt.toNat)).2 ∧
      later.platform.input = shared.platform.input) ∨
    0 < shared.heap.limit ∧
      Exec.readString ⟨executor.withOperands [word, .ofInt limit], shared⟩ =
        .ok () ⟨(executor.withOperands [word]).fail .allocFailed, shared⟩ := by
  have items : (executor.withOperands [word, .ofInt limit]).eval.items =
      (executor.eval.items.push word).push (.ofInt limit) := rfl
  have popped : Exec.popInt ⟨executor.withOperands [word, .ofInt limit], shared⟩ =
      .ok limit ⟨executor.withOperands [word], shared⟩ :=
    Exec.popInt_push items
  have room : (executor.withOperands [word]).eval.items.size <
      (executor.withOperands [word]).eval.capacity := by
    have stack := ready.stack
    change (executor.eval.items.push word).size < executor.eval.capacity
    rw [Array.size_push]
    omega
  unfold Exec.readString
  rw [Evaluation.exec_bind popped, Evaluation.exec_bind (peekStream_eq contains)]
  rcases Exec.allocate?_eq (executor.withOperands [word]) shared (.blank limit.toInt.toNat) with
    ⟨later, made, heap, input⟩ | ⟨limited, full⟩
  · left
    refine ⟨later, ?_, heap, input⟩
    rw [Evaluation.exec_bind made]
    change EStateM.Result.ok () (Session.mk (Exec.waiting
      ((executor.withOperands [word]).push _) _) later) = _
    rw [Exec.push_eq room]
    rfl
  · right
    refine ⟨limited, ?_⟩
    rw [Evaluation.exec_bind full]
    rfl

theorem served_streamString {limit : Int32} (ready : Ready executor)
    (serving : Serving streams valid shared) (member : word ∈ streams)
    (numbers : shared.heap.slots.size + 1 < 2 ^ 32) :
    Served streams valid executor shared (.streamString word limit) ∨
      Dropped executor shared (.streamString word limit) := by
  obtain ⟨stream, contains, console, isValid⟩ := serving.streams word member
  rcases readString_eq ready contains with ⟨later, called, heap, same⟩ | ⟨limited, full⟩
  · left
    have allocated := Heap.allocate_allocated serving.wellFormed numbers (.blank limit.toInt.toNat)
    have runs := @run_eq _ _ (.streamString word limit) _ _ called
    have leaves := serving.allocate numbers heap (same ▸ serving.sound)
    generalize (shared.heap.allocate (.blank limit.toInt.toNat)).1 = made at allocated runs
    rw [← heap] at allocated
    have stays := allocated.contains contains
    obtain ⟨data, next, input, draws⟩ :=
      Stream.exists_drawsUpTo leaves.serving.sound console limit.toInt.toNat
    have blank : (Exec.withRead later word next input).heap.Contains made
        (.blank limit.toInt.toNat) := by
      obtain ⟨_, _, still⟩ := Heap.contains_modify stays
        (Heap.setPayload_slots later.heap word (.stream next)) allocated.contains_new
      rw [if_neg (allocated.index_ne contains)] at still
      exact still
    have reads := leaves.serving.read stays draws
    refine ⟨Bytes.toList data, .text (Bytes.toList data), _, _, ?_,
      ⟨made, runs.trans (attemptReadString_eq ready stays draws blank), data,
        text_of_contains (fill_blank blank data).2, rfl⟩,
      ⟨reads.wellFormed.setText .., reads.sound, reads.streams.setText blank⟩, ?_, leaves.limit⟩
    · have draws := draws.draws
      rw [isValid, same] at draws
      exact .streamString draws
    · refine Nat.le_trans (Nat.le_of_eq ?_) leaves.slots
      exact (size_setText ..).trans (size_setPayload ..)
  · right
    have unpaused : ((executor.withOperands [word]).fail .allocFailed).wait = none := by
      rw [Executor.fail_eq]
      exact ready.wait
    refine ⟨limited, [], shared, ⟨_, run_eq_of_ended full unpaused, ?_⟩, .inl rfl, rfl⟩
    rw [Executor.fail_eq]
    exact if_pos ready.running

theorem served_or_dropped (ready : Ready executor) (serving : Serving streams valid shared)
    (opened : ∀ word, call.stream? = some word → word ∈ streams)
    (numbers : shared.heap.slots.size + 1 < 2 ^ 32) :
    Served streams valid executor shared call ∨ Dropped executor shared call := by
  cases call with
  | char => exact .inl (served_char ready serving)
  | line => exact served_line ready serving numbers
  | streamChar word => exact .inl (served_streamChar ready serving (opened word rfl))
  | streamString word limit => exact served_streamString ready serving (opened word rfl) numbers

/--
Calls for bytes, lines, and bytes and strings of streams that are open on the console input, one
after another and by any executors, take the input piece by piece in their order. Each is answered
by what it takes, unless a limit of the heap leaves no room for the answer. A call for which that
is so ends its executor and is the last one; it has taken a line, or nothing.
-/
theorem console_input_conserved {calls : List (Executor × InputCall)}
    (serving : Serving streams valid shared) (ready : ∀ made ∈ calls, Ready made.1)
    (opened : ∀ made ∈ calls, ∀ word, made.2.stream? = some word → word ∈ streams)
    (numbers : shared.heap.slots.size + calls.length < 2 ^ 32) :
    ∃ answers pieces middle between later,
      Runs shared calls answers later ∧
      ServesAll (unread shared) valid ((calls.map Prod.snd).take answers.length) pieces answers
        middle between ∧
      unread shared = pieces.flatten ++ middle ∧
      (answers.length = calls.length ∧ unread later = middle ∨
        answers.length < calls.length ∧ 0 < shared.heap.limit ∧ ∃ lost,
          (lost = [] ∨ NextLine middle lost) ∧ middle = lost ++ unread later) := by
  induction calls generalizing shared valid with
  | nil => exact ⟨[], [], _, valid, shared, .done, .nil, rfl, .inl ⟨rfl, rfl⟩⟩
  | cons made calls ih =>
    obtain ⟨executor, call⟩ := made
    rw [List.length_cons] at numbers
    rcases served_or_dropped (ready _ List.mem_cons_self) serving
      (opened _ List.mem_cons_self) (by omega) with
      ⟨piece, answer, between, middle, serves, answered, serving, slots, limit⟩ |
      ⟨limited, lost, later, ends, line, kept⟩
    · obtain ⟨answers, pieces, left, last, later, runs, servesAll, _, done⟩ :=
        ih serving
          (fun made member => ready made (List.mem_cons_of_mem _ member))
          (fun made member => opened made (List.mem_cons_of_mem _ member)) (by omega)
      have whole := ServesAll.cons serves servesAll
      refine ⟨answer :: answers, piece :: pieces, left, last, later, .next answered runs, whole,
        whole.rest_eq, ?_⟩
      rw [List.length_cons, List.length_cons, ← limit]
      rcases done with ⟨all, same⟩ | ⟨fewer, dropped⟩
      · exact .inl ⟨by rw [all], same⟩
      · exact .inr ⟨Nat.succ_lt_succ fewer, dropped⟩
    · exact ⟨[], [], _, valid, later, .ended ends, .nil, rfl,
        .inr ⟨Nat.zero_lt_succ _, limited, lost, line, kept⟩⟩

/-- Lines, bytes and strings of an input that a stream is open on, in a heap without a limit. -/
theorem console_input_conserved_mixed :
    let word := Word.ofHandle (.make 1 0)
    let heap := ((Heap.new 0 0).allocate (.stream (.ofChannel (.console .input)))).2
    let platform : Platform :=
      { (default : Platform) with input := { source := Bytes.ofList [97, 98, 13, 10, 99, 100] } }
    let shared : Shared := { (default : Shared) with heap, platform }
    let executor : Executor := { (default : Executor) with eval := { capacity := 2 } }
    let calls := [(executor, .streamChar word), (executor, .line), (executor, .char),
      (executor, .streamString word 8), (executor, .streamString word 8), (executor, .line)]
    ∃ answers pieces middle between later,
      Runs shared calls answers later ∧
      ServesAll (unread shared) (fun _ => true) ((calls.map Prod.snd).take answers.length) pieces
        answers middle between ∧
      unread shared = pieces.flatten ++ middle ∧ answers.length = calls.length ∧
      unread later = middle := by
  intro word heap platform shared executor calls
  have found : heap.deref word = .ok ⟨96, .stream (.ofChannel (.console .input))⟩ := by decide
  have serving : Serving [word] (fun _ => true) shared := by
    refine ⟨(Heap.Sound.new 0 0).wellFormed.allocate (by decide) _, ⟨by decide, by decide⟩, ?_⟩
    intro other member
    rw [List.mem_singleton.1 member]
    exact ⟨_, ⟨_, found⟩, rfl, rfl⟩
  have ready : ∀ made ∈ calls, Ready made.1 := by
    have same : Ready executor := ⟨rfl, rfl, by decide⟩
    simp [calls, same]
  have opened : ∀ made ∈ calls, ∀ other, made.2.stream? = some other → other ∈ [word] := by
    simp [calls, stream?]
  obtain ⟨answers, pieces, middle, between, later, runs, serves, whole, done⟩ :=
    console_input_conserved serving ready opened (by decide)
  exact ⟨answers, pieces, middle, between, later, runs, serves, whole,
    done.resolve_right fun dropped => absurd dropped.2.1 (by decide)⟩

end InputCall

end WordMachine
