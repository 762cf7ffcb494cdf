import WordMachine.Proofs.Courses
import WordMachine.Proofs.Effects

/-!
Plans of computations. A plan says how the course of a computation is put together from actions, how
many operands it finds and leaves on the stack, and whether it may end or pause its executor. What
holds of every action and of whatever is put together from them holds by induction on the plan, so
that an instruction is looked at once and not once for each property.
-/

namespace WordMachine

/-- The session with other constants and frames. -/
def Session.under (session : Session) (consts : ConstStack) (calls : CallStack) : Session :=
  { session with executor := { session.executor with consts, calls } }

/-- How many operands an executor that waits keeps on its stack. One value takes their place. -/
def Wait.operands : Wait → Nat
  | .consoleChar | .consoleLine => 0
  | .readString _ | .write _ _ => 2
  | _ => 1

/-- Whether an attempt changes streams, files or connections. -/
def Wait.changesPlatform : Wait → Bool
  | .readString _ | .readChar | .write _ _ | .accept | .dial _ _ _ | .connect _ _ _ _ => true
  | _ => false

/-- How many operands a platform call takes. One value takes their place. -/
def PlatformCall.operands : PlatformCall → Nat
  | .readChar | .readLine | .termWidth | .termHeight | .envArgCount | .clockMicro | .clockNano => 0
  | .streamReadString | .streamWriteString | .streamWriteChar | .streamSetOptions
  | .streamUnsetOptions | .fileOpen | .tcpConnect | .tcpListen | .assert => 2
  | _ => 1

/-- Whether a platform call pushes an operand before it waits. -/
def PlatformCall.pushesEarly : PlatformCall → Bool
  | .streamReadString | .streamWriteChar => true
  | _ => false

/-- Whether a platform call changes files, listeners or the terminal. -/
def PlatformCall.changesPlatform : PlatformCall → Bool
  | .fileOpen | .fileRemove | .tcpListen | .termSetOptions | .termUnsetOptions => true
  | _ => false

/-- Whether an instruction has to do with the constants and frames of its executor. -/
def Opcode.usesFrames : Opcode → Bool
  | .reserveConsts | .storeConst | .loadConst | .call | .callDynamic | .ret | .force => true
  | _ => false

/-- How many operands an instruction takes that has nothing to do with constants and frames. -/
def Opcode.taken (code : Bytes) (operands : Nat) : Opcode → Nat
  | .loadInt | .loadLong | .loadFloat | .loadString | .loadAddress | .makeNull | .jump | .fail => 0
  | .addInt | .subInt | .mulInt | .divInt | .remInt | .shiftLeft | .shiftRight | .andInt | .orInt
  | .xorInt | .addLong | .subLong | .mulLong | .divLong | .remLong | .addFloat | .subFloat
  | .mulFloat | .divFloat | .modFloat | .powFloat | .atan2Float | .concat | .appendChar | .index
  | .combineChars | .eqInt | .eqLong | .eqFloat | .eqString | .gtInt | .gtLong | .gtFloat | .ltInt
  | .ltLong | .ltFloat | .awaitFor => 2
  | .slice => 3
  | .makeStruct => (code.byteAt operands).toNat
  | .platformCall => ((PlatformCall.ofCode? (code.byteAt operands)).map (·.operands)).getD 0
  | _ => 1

/-- How many operands it leaves in their place. -/
def Opcode.given : Opcode → Nat
  | .pop | .jump | .jumpIf => 0
  | .dup => 2
  | _ => 1

namespace Exec.Course

/-- What a plan may do besides working on operands. -/
structure Rights where
  /-- Where it may jump to. -/
  target : UInt32 → Prop
  /-- Whether it may wait. -/
  pauses : Prop
  /-- Whether it may work on streams and files. -/
  shares : Prop
  /-- Whether it may end in a state in which another executor has ended. -/
  adopts : Prop

/-- How a course is put together. The mark tells whether the executor may not run on afterwards; the
numbers count the operands before and after, should it run on or come back from its wait. -/
inductive Plan (rights : Rights) :
    {α : Type} → {computation : Exec α} → Course computation → Bool → Nat → Nat → Prop
  | done {α : Type} (value : α) {stops : Bool} {count : Nat} :
      Plan rights (done value) stops count count
  | bind {α β : Type} {first : Exec α} {next : α → Exec β} {early : Course first}
      {late : ∀ value, Course (next value)} {stops : Bool} {start middle stop : Nat} :
      Plan rights early false start middle →
      (∀ value, Plan rights (late value) stops middle stop) →
      Plan rights (early.bind late) stops start stop
  | ite {α : Type} {condition : Prop} [Decidable condition] {yes no : Exec α}
      {whenTrue : Course yes} {whenFalse : Course no} {stops : Bool} {start stop : Nat} :
      Plan rights whenTrue stops start stop → Plan rights whenFalse stops start stop →
      Plan rights (whenTrue.ite whenFalse : Course (if condition then yes else no)) stops start stop
  | of {α : Type} {computation other : Exec α} {course : Course other}
      {same : computation = other} {stops : Bool} {start stop : Nat} :
      Plan rights course stops start stop → Plan rights (course.of same) stops start stop
  /-- The session may be read, but not its constants and frames. -/
  | get {α : Type} {next : Session → Exec α} {late : ∀ session, Course (next session)}
      {stops : Bool} {start stop : Nat} :
      (∀ session consts calls, next (session.under consts calls) = next session) →
      (∀ session, Plan rights (late session) stops start stop) →
      Plan rights (get.bind late) stops start stop
  | pop {stops : Bool} {count : Nat} : Plan rights pop stops (count + 1) count
  | popAt {depth : Nat} {stops : Bool} {count : Nat} :
      depth ≤ count → Plan rights (popAt depth) stops (count + 1) count
  | popMany {taken : Nat} {stops : Bool} {count : Nat} :
      Plan rights (popMany taken) stops (count + taken) count
  | peekBehind {depth : Nat} {stops : Bool} {count : Nat} :
      depth < count → Plan rights (peekBehind depth) stops count count
  | push {word : Word} {count : Nat} : Plan rights (push word) true count (count + 1)
  | fail {state : ExecState} {start stop : Nat} :
      state.isTerminal = true ∨ rights.adopts → Plan rights (fail state) true start stop
  | resume {stops : Bool} {count : Nat} : Plan rights resume stops count count
  | stay {wait : Wait} {count : Nat} :
      rights.pauses → Plan rights (stay wait) true (count + wait.operands) (count + 1)
  | jump {ip : UInt32} {stops : Bool} {count : Nat} :
      rights.target ip → Plan rights (jump ip) stops count count
  | look {α : Type} {view : Heap → Except Fault α} {stops : Bool} {count : Nat} :
      Plan rights (look view) stops count count
  | text {word : Word} {stops : Bool} {count : Nat} : Plan rights (text word) stops count count
  | allocate {payload : Payload} {stops : Bool} {count : Nat} :
      payload.Plain rights.target → Plan rights (allocate? payload) stops count count
  | pushStream {stream : Stream} {count : Nat} :
      stream.handle? = none ∨ rights.shares →
      Plan rights (pushStream stream) true count (count + 1)
  | modifyHeap {change : Heap → Heap} {stops : Bool} {count : Nat} :
      rights.shares → Plan rights (modifyHeap change) stops count count
  | setStream {word : Word} {stream : Stream} {stops : Bool} {count : Nat} :
      rights.shares → Plan rights (setStream word stream) stops count count
  | platform {stops : Bool} {count : Nat} : Plan rights platform stops count count
  | modifyPlatform {change : Platform → Platform} {stops : Bool} {count : Nat} :
      (∀ platform : Platform, platform.SameRecord (change platform)) →
      Plan rights (modifyPlatform change) stops count count
  | setPlatform {platform : Platform} {stops : Bool} {count : Nat} :
      rights.shares → Plan rights (setPlatform platform) stops count count
  | openFileStream {path : Bytes} {mode flags : Nat} {stops : Bool} {count : Nat} :
      rights.shares → Plan rights (openFileStream path mode flags) stops count count

variable {rights : Rights} {stops : Bool} {count : Nat}

/-! ## Operands -/

theorem plan_peek : Plan rights peek stops (count + 1) (count + 1) :=
  .peekBehind (Nat.succ_pos count)

theorem plan_popInt : Plan rights popInt stops (count + 1) count :=
  .bind .pop fun _ => .done _

theorem plan_popFloat : Plan rights popFloat stops (count + 1) count :=
  .bind .pop fun _ => .done _

theorem plan_pushNew {payload : Payload} (plain : payload.Plain rights.target) :
    Plan rights (pushNew payload) true count (count + 1) := by
  refine .bind (.allocate plain) fun found => ?_
  cases found with
  | some word => exact .push
  | none => exact .fail (.inl rfl)

theorem plan_pushString {text : Bytes} : Plan rights (pushString text) true count (count + 1) :=
  plan_pushNew trivial

theorem plan_pushLong {value : Int64} : Plan rights (pushLong value) true count (count + 1) :=
  .ite .push (plan_pushNew trivial)

theorem plan_popText : Plan rights popText stops (count + 1) count :=
  .bind .pop fun _ => .text

theorem plan_popLong : Plan rights popLong stops (count + 1) count :=
  .bind .pop fun _ => .look

theorem plan_peekStream {depth : Nat} (fits : depth < count) :
    Plan rights (peekStream depth) stops count count :=
  .bind (.peekBehind fits) fun _ => .look

theorem plan_popStream : Plan rights popStream stops (count + 1) count :=
  .bind .pop fun _ => .look

/-! ## Waiting -/

theorem plan_takeOutcome {outcome : Word × ExecState}
    (ends : outcome.2.isTerminal = true ∨ rights.adopts) :
    Plan rights (takeOutcome outcome) true (count + 1) (count + 1) :=
  .bind .resume fun _ => .bind .pop fun _ => .ite .push (.fail ends)

theorem plan_await (adopts : rights.adopts) (pauses : rights.pauses) :
    Plan rights await true (count + 1) (count + 1) := by
  refine .bind plan_peek fun _ => .bind .look fun outcome => ?_
  cases outcome with
  | some outcome => exact plan_takeOutcome (.inr adopts)
  | none => exact .stay pauses

theorem plan_awaitFor (pauses : rights.pauses) :
    Plan rights awaitFor true (count + 2) (count + 1) :=
  .bind plan_popLong fun _ => .bind plan_peek fun _ => .bind .look fun _ =>
    .ite (.bind .pop fun _ => .push) (.bind .platform fun _ => .stay pauses)

theorem plan_attemptFutureUntil (pauses : rights.pauses) (deadline : Nat) :
    Plan rights (attemptFutureUntil deadline) true (count + 1) (count + 1) :=
  .bind plan_peek fun _ => .bind .look fun _ => .bind .platform fun _ =>
    .ite (.bind .resume fun _ => .bind .pop fun _ => .push) (.stay pauses)

theorem plan_attemptSleep (pauses : rights.pauses) (wake : Nat) :
    Plan rights (attemptSleep wake) true (count + 1) (count + 1) :=
  .bind .platform fun _ => .ite .resume (.stay pauses)

theorem plan_attemptConsoleChar : Plan rights attemptConsoleChar true count (count + 1) :=
  .bind .platform fun _ => .bind (.modifyPlatform fun _ => ⟨rfl, rfl⟩) fun _ =>
    .bind .resume fun _ => .push

theorem plan_attemptConsoleLine : Plan rights attemptConsoleLine true count (count + 1) :=
  .bind .platform fun _ => .bind (.modifyPlatform fun _ => ⟨rfl, rfl⟩) fun _ =>
    .bind .resume fun _ => plan_pushString

theorem plan_readStream (shares : rights.shares) {depth : Nat} (fits : depth < count)
    (bytes : Nat) : Plan rights (readStream depth bytes) stops count count :=
  .bind (.peekBehind fits) fun _ => .bind .look fun _ => .bind .platform fun _ =>
    .bind (.setStream shares) fun _ => .bind (.setPlatform shares) fun _ => .done _

theorem plan_attemptReadString (shares : rights.shares) (pauses : rights.pauses) (limit : Nat) :
    Plan rights (attemptReadString limit) true (count + 2) (count + 1) := by
  refine .bind (plan_readStream shares (by omega) limit) fun data => ?_
  cases data with
  | none => exact .stay pauses
  | some data =>
    exact .bind .resume fun _ => .bind plan_peek fun _ => .bind .look fun _ =>
      .bind (.modifyHeap shares) fun _ => .bind (.popAt (by omega)) fun _ => .done _

theorem plan_attemptReadChar (shares : rights.shares) (pauses : rights.pauses) :
    Plan rights attemptReadChar true (count + 1) (count + 1) := by
  refine .bind (plan_readStream shares (by omega) 1) fun data => ?_
  cases data with
  | none => exact .stay pauses
  | some data => exact .bind .resume fun _ => .bind .pop fun _ => .push

theorem plan_attemptWrite (shares : rights.shares) (pauses : rights.pauses) (data : Bytes)
    (offered : Bool) : Plan rights (attemptWrite data offered) true (count + 2) (count + 1) := by
  refine .bind (.peekBehind (by omega)) fun _ => .bind .look fun stream =>
    .bind .platform fun platform => ?_
  obtain ⟨written, offered, stream, platform⟩ := stream.write platform data offered
  refine .bind (.setStream shares) fun _ => .bind (.setPlatform shares) fun _ => ?_
  cases written with
  | none => exact .stay pauses
  | some written =>
    exact .bind .resume fun _ => .bind .pop fun _ => .bind .pop fun _ => .push

theorem plan_attemptFlush : Plan rights attemptFlush true (count + 1) (count + 1) :=
  .bind (plan_peekStream (by omega)) fun _ => .bind .resume fun _ => .bind .pop fun _ => .push

theorem plan_attemptAccept (shares : rights.shares) (pauses : rights.pauses) :
    Plan rights attemptAccept true (count + 1) (count + 1) := by
  refine .bind (plan_peekStream (by omega)) fun stream => .bind .platform fun platform => ?_
  generalize stream.accept platform = accepted
  cases accepted with
  | none => exact .stay pauses
  | some accepted =>
    exact .bind (.setPlatform shares) fun _ => .bind .resume fun _ => .bind .pop fun _ =>
      .pushStream (.inr shares)

theorem plan_takeConnection {stream : Stream} (held : stream.handle? = none ∨ rights.shares) :
    Plan rights (takeConnection stream) true (count + 1) (count + 1) :=
  .bind .resume fun _ => .bind .pop fun _ => .pushStream held

theorem plan_attemptConnect (shares : rights.shares) (pauses : rights.pauses) (listener : Nat)
    (host : Bytes) (port deadline : Nat) :
    Plan rights (attemptConnect listener host port deadline) true (count + 1) (count + 1) := by
  refine .bind .platform fun platform => ?_
  generalize platform.connect listener host port = connected
  cases connected with
  | done connected =>
    exact .bind (.setPlatform shares) fun _ => plan_takeConnection (.inr shares)
  | failed error => exact plan_takeConnection (.inl rfl)
  | wait => exact .ite (plan_takeConnection (.inl rfl)) (.stay pauses)

theorem plan_attemptDial (shares : rights.shares) (pauses : rights.pauses) (host : Bytes)
    (port deadline : Nat) :
    Plan rights (attemptDial host port deadline) true (count + 1) (count + 1) := by
  refine .bind .platform fun platform => ?_
  generalize platform.target host port = target
  cases target with
  | error error => exact plan_takeConnection (.inl rfl)
  | ok listener => exact plan_attemptConnect shares pauses _ _ _ _

theorem plan_attemptAddress (host : Bytes) :
    Plan rights (attemptAddress host) true (count + 1) (count + 1) :=
  .bind .platform fun _ => .bind .resume fun _ => .bind .pop fun _ => plan_pushString

/-- The attempt at a future ends in the state of another executor. -/
theorem plan_attempt (pauses : rights.pauses) {wait : Wait}
    (shares : wait.changesPlatform = true → rights.shares)
    (adopts : wait = .future → rights.adopts) :
    Plan rights (attempt wait) true (count + wait.operands) (count + 1) := by
  cases wait with
  | sleep wake => exact plan_attemptSleep pauses wake
  | future => exact plan_await (adopts rfl) pauses
  | futureUntil deadline => exact plan_attemptFutureUntil pauses deadline
  | consoleChar => exact plan_attemptConsoleChar
  | consoleLine => exact plan_attemptConsoleLine
  | readString limit => exact plan_attemptReadString (shares rfl) pauses limit
  | readChar => exact plan_attemptReadChar (shares rfl) pauses
  | write data offered => exact plan_attemptWrite (shares rfl) pauses data offered
  | flush => exact plan_attemptFlush
  | accept => exact plan_attemptAccept (shares rfl) pauses
  | dial host port deadline => exact plan_attemptDial (shares rfl) pauses host port deadline
  | connect listener host port deadline =>
    exact plan_attemptConnect (shares rfl) pauses listener host port deadline
  | address host => exact plan_attemptAddress host

/-! ## Platform calls -/

theorem plan_writeConsole (text : Bytes) : Plan rights (writeConsole text) stops count count :=
  .modifyPlatform fun _ => ⟨rfl, rfl⟩

theorem plan_openConsole : Plan rights openConsole true (count + 1) (count + 1) := by
  refine .bind plan_popInt fun number => ?_
  generalize ConsoleKind.ofCode? number = kind
  cases kind with
  | none => exact .pushStream (.inl rfl)
  | some kind => exact .pushStream (.inl rfl)

theorem plan_changeStream : Plan rights changeStream true (count + 2) (count + 1) :=
  .bind plan_popInt fun _ => .bind plan_popStream fun _ => .bind .platform fun _ => .push

theorem plan_openFile (shares : rights.shares) :
    Plan rights openFile true (count + 2) (count + 1) :=
  .bind plan_popInt fun _ => .bind plan_popText fun _ => .bind (.openFileStream shares) fun _ =>
    .pushStream (.inr shares)

theorem plan_removeFile (shares : rights.shares) :
    Plan rights removeFile true (count + 1) (count + 1) := by
  refine .bind plan_popText fun path => .bind .platform fun platform => ?_
  generalize platform.removeFile path = removed
  cases removed with
  | ok platform => exact .bind (.setPlatform shares) fun _ => .push
  | error error => exact .push

theorem plan_connect (pauses : rights.pauses) :
    Plan rights connect true (count + 2) (count + 1) := by
  refine .bind plan_popInt fun number => .bind plan_peek fun _ => .bind .text fun host => ?_
  generalize port? number = port
  cases port with
  | none => exact plan_takeConnection (.inl rfl)
  | some port => exact .get (fun _ _ _ => rfl) fun _ => .stay pauses

theorem plan_listen (shares : rights.shares) :
    Plan rights listen true (count + 2) (count + 1) := by
  refine .bind plan_popInt fun backlog => .bind plan_popInt fun number => ?_
  generalize Exec.port? number = port
  cases port with
  | none => exact .pushStream (.inl rfl)
  | some port =>
    refine .bind .platform fun platform => ?_
    generalize platform.listen port backlog.toInt.toNat = listens
    cases listens with
    | ok listens => exact .bind (.setPlatform shares) fun _ => .pushStream (.inl rfl)
    | error error => exact .pushStream (.inl rfl)

theorem plan_changeTerminal (shares : rights.shares) (set : Bool) :
    Plan rights (changeTerminal set) true (count + 1) (count + 1) := by
  refine .bind plan_popInt fun options => .bind .platform fun platform => ?_
  generalize platform.changeTerminal? options.toUInt32 set = changed
  cases changed with
  | none => exact .push
  | some platform => exact .bind (.setPlatform shares) fun _ => .push

theorem plan_readClock : Plan rights readClock stops count count :=
  .bind .platform fun _ => .bind (.modifyPlatform fun _ => ⟨rfl, rfl⟩) fun _ => .done _

theorem plan_argument : Plan rights argument true (count + 1) (count + 1) :=
  .bind .platform fun _ => .bind plan_popInt fun _ => plan_pushString

theorem plan_environmentVariable :
    Plan rights environmentVariable true (count + 1) (count + 1) :=
  .bind plan_popText fun _ => .bind .platform fun _ => plan_pushString

theorem plan_assert : Plan rights assert true (count + 2) (count + 1) :=
  .bind plan_popText fun _ => .bind plan_peek fun _ =>
    .ite (.bind (.modifyPlatform fun _ => ⟨rfl, rfl⟩) fun _ => .fail (.inl rfl)) (.done _)

theorem plan_platformCall (pauses : rights.pauses) {call : PlatformCall}
    (late : call.pushesEarly = false) (shares : call.changesPlatform = true → rights.shares) :
    Plan rights (platformCall call) true (count + call.operands) (count + 1) := by
  have staying (wait : Wait) (one : wait.operands = 1) :
      Plan rights ((peekStream 0).bind fun _ => stay wait) true (count + 1) (count + 1) := by
    have stays : Plan rights (stay wait) true (count + wait.operands) (count + 1) := .stay pauses
    rw [one] at stays
    exact .bind (plan_peekStream (by omega)) fun _ => stays
  unfold platformCall
  cases call with
  | writeChar => exact .bind plan_peek fun _ => plan_writeConsole _
  | writeString | writeLine =>
    exact .bind plan_peek fun _ => .bind .text fun _ => plan_writeConsole _
  | readChar | readLine => exact .stay pauses
  | streamValid => exact .bind plan_popStream fun _ => .push
  | streamReadString | streamWriteChar => cases late
  | streamReadChar | streamFlush | tcpAccept => exact staying _ rfl
  | streamWriteString =>
    exact .bind plan_peek fun _ => .bind .text fun _ =>
      .bind (plan_peekStream (by omega)) fun _ => .stay pauses
  | streamSetOptions | streamUnsetOptions => exact plan_changeStream
  | fileOpen => exact plan_openFile (shares rfl)
  | fileRemove => exact plan_removeFile (shares rfl)
  | tcpConnect => exact plan_connect pauses
  | tcpListen => exact plan_listen (shares rfl)
  | lookupAddress => exact .bind plan_peek fun _ => .bind .text fun _ => .stay pauses
  | consoleOpen => exact plan_openConsole
  | termSetOptions | termUnsetOptions => exact plan_changeTerminal (shares rfl) _
  | termWidth | termHeight | envArgCount => exact .bind .platform fun _ => .push
  | envArg => exact plan_argument
  | envVar => exact plan_environmentVariable
  | clockMicro => exact .bind .platform fun _ => .bind plan_readClock fun _ => plan_pushLong
  | clockNano => exact .bind plan_readClock fun _ => plan_pushLong
  | sleep =>
    exact .bind plan_peek fun _ => .bind .look fun _ => .bind .platform fun _ => .stay pauses
  | assert => exact plan_assert

/-! ## Instructions -/

theorem plan_intBinary (operation : Int32 → Int32 → Int32) :
    Plan rights (intBinary operation) true (count + 2) (count + 1) :=
  .bind plan_popInt fun _ => .bind plan_popInt fun _ => .push

theorem plan_intDivision (operation : Int32 → Int32 → Int32) :
    Plan rights (intDivision operation) true (count + 2) (count + 1) :=
  .bind plan_popInt fun _ => .bind plan_popInt fun _ => .ite (.fail (.inl rfl)) .push

theorem plan_longBinary (operation : Int64 → Int64 → Int64) :
    Plan rights (longBinary operation) true (count + 2) (count + 1) :=
  .bind plan_popLong fun _ => .bind plan_popLong fun _ => plan_pushLong

theorem plan_longDivision (operation : Int64 → Int64 → Int64) :
    Plan rights (longDivision operation) true (count + 2) (count + 1) :=
  .bind plan_popLong fun _ => .bind plan_popLong fun _ => .ite (.fail (.inl rfl)) plan_pushLong

theorem plan_longTest (test : Int64 → Int64 → Bool) :
    Plan rights (longTest test) true (count + 2) (count + 1) :=
  .bind plan_popLong fun _ => .bind plan_popLong fun _ => .push

theorem plan_floatBinary (operation : Number.Single → Number.Single → Number.Single) :
    Plan rights (floatBinary operation) true (count + 2) (count + 1) :=
  .bind plan_popFloat fun _ => .bind plan_popFloat fun _ => .push

theorem plan_loadString (assembly : Assembly) (number : UInt32) :
    Plan rights (loadString assembly number) true count (count + 1) := by
  unfold loadString
  split
  · exact .of plan_pushString
  · exact .of (.fail (.inl rfl))

theorem plan_slice : Plan rights slice true (count + 3) (count + 1) :=
  .bind plan_popInt fun _ => .bind plan_popInt fun _ => .bind .pop fun _ => .bind .text fun _ =>
    .ite .push plan_pushString

theorem plan_loadField (index : UInt8) :
    Plan rights (loadField index) true (count + 1) (count + 1) := by
  refine .bind .pop fun word => .bind .look fun fields => ?_
  generalize fields[index.toNat]? = field
  cases field with
  | none => exact .fail (.inl rfl)
  | some field => exact .push

/-- The instructions that leave constants and frames alone. -/
theorem plan_perform {assembly : Assembly} {op : Opcode} {operands : Nat}
    (plain : op.usesFrames = false)
    (waits : op = .platformCall ∨ op = .await ∨ op = .awaitFor → rights.pauses)
    (adopts : op = .await → rights.adopts)
    (calls : op = .platformCall → ∀ call,
      PlatformCall.ofCode? (assembly.code.byteAt operands) = some call →
        call.pushesEarly = false ∧ (call.changesPlatform = true → rights.shares))
    (permitted : op = .jump ∨ op = .jumpIf → rights.target (assembly.code.u32At operands)) :
    Plan rights (perform assembly op operands) true
      (count + op.taken assembly.code operands) (count + op.given) := by
  unfold perform
  cases op with
  | reserveConsts | storeConst | loadConst | call | callDynamic | ret | force => cases plain
  | loadInt | loadFloat | loadAddress | makeNull => exact .push
  | loadLong => exact plan_pushLong
  | loadString => exact plan_loadString _ _
  | dup => exact .bind plan_peek fun _ => .push
  | pop => exact .bind .pop fun _ => .done _
  | addInt | subInt | mulInt | shiftLeft | shiftRight | andInt | orInt | xorInt =>
    exact plan_intBinary _
  | divInt | remInt => exact plan_intDivision _
  | eqInt | gtInt | ltInt =>
    exact .bind plan_popInt fun _ => .bind plan_popInt fun _ => .push
  | negInt | notInt | complement => exact .bind plan_popInt fun _ => .push
  | addLong | subLong | mulLong => exact plan_longBinary _
  | divLong | remLong => exact plan_longDivision _
  | eqLong | gtLong | ltLong => exact plan_longTest _
  | negLong => exact .bind plan_popLong fun _ => plan_pushLong
  | addFloat | subFloat | mulFloat | powFloat | atan2Float => exact plan_floatBinary _
  | divFloat | modFloat =>
    exact .bind plan_popFloat fun _ => .bind plan_popFloat fun _ => .ite (.fail (.inl rfl)) .push
  | eqFloat | gtFloat | ltFloat =>
    exact .bind plan_popFloat fun _ => .bind plan_popFloat fun _ => .push
  | sqrtFloat | sinFloat | cosFloat | tanFloat | asinFloat | acosFloat | atanFloat | negFloat
  | floatToInt | floatToChar => exact .bind plan_popFloat fun _ => .push
  | concat => exact .bind plan_popText fun _ => .bind plan_popText fun _ => plan_pushString
  | eqString => exact .bind plan_popText fun _ => .bind plan_popText fun _ => .push
  | appendChar => exact .bind .pop fun _ => .bind .pop fun _ => plan_pushNew trivial
  | length => exact .bind plan_popText fun _ => .push
  | index => exact .bind plan_popInt fun _ => .bind plan_popText fun _ => .push
  | slice => exact plan_slice
  | combineChars => exact .bind .pop fun _ => .bind .pop fun _ => plan_pushString
  | isNull | intToChar => exact .bind .pop fun _ => .push
  | intToLong => exact .bind plan_popInt fun _ => plan_pushLong
  | intToFloat => exact .bind plan_popInt fun _ => .push
  | intToString | boolToString => exact .bind plan_popInt fun _ => plan_pushString
  | longToInt => exact .bind plan_popLong fun _ => .push
  | longToString => exact .bind plan_popLong fun _ => plan_pushString
  | floatToString => exact .bind plan_popFloat fun _ => plan_pushString
  | charToString => exact .bind .pop fun _ => plan_pushString
  | makeStruct => exact .bind .popMany fun _ => plan_pushNew trivial
  | loadField => exact plan_loadField _
  | jump => exact .jump (permitted (.inl rfl))
  | jumpIf =>
    exact .bind plan_popInt fun _ => .ite (.jump (permitted (.inr rfl))) (.done _)
  | platformCall =>
    dsimp only
    split
    · next call known =>
      obtain ⟨late, shares⟩ := calls rfl call known
      have taken : Opcode.platformCall.taken assembly.code operands = call.operands := by
        simp only [Opcode.taken, known, Option.map_some, Option.getD_some]
      rw [taken]
      exact .of (plan_platformCall (waits (.inl rfl)) late shares)
    · exact .of (.fail (.inl rfl))
  | fail => exact .fail (.inl rfl)
  | awaitFor => exact plan_awaitFor (waits (.inr (.inr rfl)))
  | await => exact plan_await (adopts rfl) (waits (.inr (.inl rfl)))

end Exec.Course

end WordMachine
