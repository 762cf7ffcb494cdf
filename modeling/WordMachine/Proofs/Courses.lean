import WordMachine.Proofs.Computations

/-!
Courses of computations. A computation says in which session it ends; its course also tells which
sessions it goes through on the way, one after each of its actions. The type of a course names the
computation, so that a course consists of the actions of that computation and no others.
-/

namespace WordMachine.Exec

variable {α β : Type}

/-- The sessions that a computation goes through, the last of which is the one it ends in. -/
structure Course (computation : Exec α) where
  visits : Session → List Session
  arrives : ∀ session, (visits session).getLastD session = ending (computation session)

namespace Course

/-! ## Composition -/

def action (computation : Exec α) : Course computation where
  visits session := [ending (computation session)]
  arrives _ := rfl

def done (value : α) : Course (pure value : Exec α) where
  visits _ := []
  arrives _ := rfl

theorem getLastD_append {ι : Type} (first second : List ι) (start : ι) :
    (first ++ second).getLastD start = second.getLastD (first.getLastD start) := by
  cases second with
  | nil => rw [List.append_nil, List.getLastD_nil]
  | cons next rest => simp [List.getLastD_eq_getLast?, List.getLast?_append]

/-- What follows is left out after a fault. -/
def bind {first : Exec α} {next : α → Exec β} (early : Course first)
    (late : ∀ value, Course (next value)) : Course (first >>= next) where
  visits session :=
    early.visits session ++
      match first session with
      | .ok value middle => (late value).visits middle
      | .error _ _ => []
  arrives := by
    intro session
    have middle := early.arrives session
    change _ = ending (EStateM.bind first next session)
    unfold EStateM.bind
    rw [getLastD_append, middle]
    cases first session with
    | ok value middle => exact (late value).arrives middle
    | error fault last => rfl

def ite {condition : Prop} [Decidable condition] {yes no : Exec α} (whenTrue : Course yes)
    (whenFalse : Course no) : Course (if condition then yes else no) where
  visits session := if condition then whenTrue.visits session else whenFalse.visits session
  arrives := by
    intro session
    by_cases holds : condition
    · simp only [if_pos holds]
      exact whenTrue.arrives session
    · simp only [if_neg holds]
      exact whenFalse.arrives session

def of {computation other : Exec α} (course : Course other) (same : computation = other) :
    Course computation where
  visits := course.visits
  arrives := by
    rw [same]
    exact course.arrives

/-! ## Actions -/

def get : Course (MonadState.get : Exec Session) := action _

def throw (fault : Fault) : Course (MonadExcept.throw fault : Exec α) := action _

def modifyExecutor (change : Executor → Executor) : Course (Exec.modifyExecutor change) := action _

def modifyShared (change : Shared → Shared) : Course (Exec.modifyShared change) := action _

def fail (state : ExecState) : Course (Exec.fail state) := action _

def isRunning : Course Exec.isRunning := action _

def push (word : Word) : Course (Exec.push word) := action _

def pop : Course Exec.pop := action _

def popAt (depth : Nat) : Course (Exec.popAt depth) := action _

def popMany (count : Nat) : Course (Exec.popMany count) := action _

def peekBehind (depth : Nat) : Course (Exec.peekBehind depth) := action _

def peek : Course Exec.peek := action _

def look (view : Heap → Except Fault α) : Course (Exec.look view) := action _

def modifyHeap (change : Heap → Heap) : Course (Exec.modifyHeap change) := action _

def allocate? (payload : Payload) : Course (Exec.allocate? payload) := action _

def setStream (word : Word) (stream : Stream) : Course (Exec.setStream word stream) := action _

def platform : Course Exec.platform := action _

def modifyPlatform (change : Platform → Platform) : Course (Exec.modifyPlatform change) := action _

def setPlatform (platform : Platform) : Course (Exec.setPlatform platform) := action _

def resume : Course Exec.resume := action _

def stay (wait : Wait) : Course (Exec.stay wait) := action _

def jump (target : UInt32) : Course (Exec.jump target) := action _

def enter (lazy : Bool) : Course (Exec.enter lazy) := action _

def reserveConsts (count : Nat) : Course (Exec.reserveConsts count) := action _

/-! ## Operands and objects -/

def popInt : Course Exec.popInt :=
  pop.bind fun _ => done _

def popFloat : Course Exec.popFloat :=
  pop.bind fun _ => done _

def pushInt (value : Int32) : Course (Exec.pushInt value) :=
  push _

def pushBool (value : Bool) : Course (Exec.pushBool value) :=
  push _

def pushFloat (bits : Number.Single) : Course (Exec.pushFloat bits) :=
  push _

def pushEach : (words : List Word) → Course (words.forM Exec.push)
  | [] => done _
  | word :: rest => (push word).bind fun _ => pushEach rest

def pushAll (words : Array Word) : Course (words.forM Exec.push) :=
  (pushEach words.toList).of <| by
    obtain ⟨items⟩ := words
    exact Array.forM_eq_forM.trans (List.forM_toArray items _)

def pushNew (payload : Payload) : Course (Exec.pushNew payload) :=
  (allocate? payload).bind fun
    | some _ => push _
    | none => fail _

def pushString (text : Bytes) : Course (Exec.pushString text) :=
  pushNew _

def pushLong (value : Int64) : Course (Exec.pushLong value) :=
  .ite (push _) (pushNew _)

def text (word : Word) : Course (Exec.text word) :=
  (look _).bind fun object =>
    match object.payload with
    | .string _ => done _
    | .link _ _ none => (look _).bind fun _ => (modifyHeap _).bind fun _ => done _
    | .link _ _ (some _) => look _
    | .blank _ => look _
    | .struct _ => look _
    | .long _ => look _
    | .future _ => look _
    | .lazy _ => look _
    | .stream _ => look _

def popText : Course Exec.popText :=
  pop.bind fun _ => text _

def long (word : Word) : Course (Exec.long word) :=
  look _

def popLong : Course Exec.popLong :=
  pop.bind fun _ => long _

def peekStream (depth : Nat) : Course (Exec.peekStream depth) :=
  (peekBehind depth).bind fun _ => look _

def popStream : Course Exec.popStream :=
  pop.bind fun _ => look _

def pushStream (stream : Stream) : Course (Exec.pushStream stream) :=
  (allocate? _).bind fun
    | some _ => push _
    | none => (modifyShared _).bind fun _ => fail _

/-! ## Waiting -/

def takeOutcome (outcome : Word × ExecState) : Course (Exec.takeOutcome outcome) :=
  resume.bind fun _ => pop.bind fun _ => .ite (push _) (fail _)

def attemptFuture : Course Exec.attemptFuture :=
  peek.bind fun _ => (look _).bind fun
    | some outcome => takeOutcome outcome
    | none => stay _

def attemptFutureUntil (deadline : Nat) : Course (Exec.attemptFutureUntil deadline) :=
  peek.bind fun _ => (look _).bind fun _ => platform.bind fun _ =>
    .ite (resume.bind fun _ => pop.bind fun _ => pushBool _) (stay _)

def attemptSleep (wake : Nat) : Course (Exec.attemptSleep wake) :=
  platform.bind fun _ => .ite resume (stay _)

def attemptConsoleChar : Course Exec.attemptConsoleChar :=
  platform.bind fun _ => (modifyPlatform _).bind fun _ => resume.bind fun _ => pushInt _

def attemptConsoleLine : Course Exec.attemptConsoleLine :=
  platform.bind fun _ => (modifyPlatform _).bind fun _ => resume.bind fun _ => pushString _

def readStream (depth count : Nat) : Course (Exec.readStream depth count) :=
  (peekBehind depth).bind fun _ => (look _).bind fun _ => platform.bind fun _ =>
    (setStream _ _).bind fun _ => (setPlatform _).bind fun _ => done _

def attemptReadString (limit : Nat) : Course (Exec.attemptReadString limit) :=
  (readStream 1 limit).bind fun
    | none => stay _
    | some _ =>
      resume.bind fun _ => peek.bind fun _ => (look _).bind fun _ => (modifyHeap _).bind fun _ =>
        (popAt 1).bind fun _ => done _

def attemptReadChar : Course Exec.attemptReadChar :=
  (readStream 0 1).bind fun
    | none => stay _
    | some _ => resume.bind fun _ => pop.bind fun _ => pushInt _

def attemptWrite (data : Bytes) (offered : Bool) : Course (Exec.attemptWrite data offered) :=
  (peekBehind 1).bind fun _ => (look _).bind fun stream => platform.bind fun platform =>
    match stream.write platform data offered with
    | (written, _, _, _) =>
      (setStream _ _).bind fun _ => (setPlatform _).bind fun _ =>
        match written with
        | none => stay _
        | some _ => resume.bind fun _ => pop.bind fun _ => pop.bind fun _ => pushBool _

def attemptFlush : Course Exec.attemptFlush :=
  (peekStream 0).bind fun _ => resume.bind fun _ => pop.bind fun _ => pushBool _

def attemptAccept : Course Exec.attemptAccept :=
  (peekStream 0).bind fun stream => platform.bind fun platform =>
    match stream.accept platform with
    | none => stay _
    | some _ =>
      (setPlatform _).bind fun _ => resume.bind fun _ => pop.bind fun _ => pushStream _

def takeConnection (stream : Stream) : Course (Exec.takeConnection stream) :=
  resume.bind fun _ => pop.bind fun _ => pushStream _

def attemptConnect (listener : Nat) (host : Bytes) (port deadline : Nat) :
    Course (Exec.attemptConnect listener host port deadline) :=
  platform.bind fun platform =>
    match platform.connect listener host port with
    | .done _ => (setPlatform _).bind fun _ => takeConnection _
    | .failed _ => takeConnection _
    | .wait => .ite (takeConnection _) (stay _)

def attemptDial (host : Bytes) (port deadline : Nat) :
    Course (Exec.attemptDial host port deadline) :=
  platform.bind fun platform =>
    match platform.target host port with
    | .error _ => takeConnection _
    | .ok listener => attemptConnect listener host port deadline

def attemptAddress (host : Bytes) : Course (Exec.attemptAddress host) :=
  platform.bind fun _ => resume.bind fun _ => pop.bind fun _ => pushString _

def attempt : (wait : Wait) → Course (Exec.attempt wait)
  | .sleep wake => attemptSleep wake
  | .future => attemptFuture
  | .futureUntil deadline => attemptFutureUntil deadline
  | .consoleChar => attemptConsoleChar
  | .consoleLine => attemptConsoleLine
  | .readString limit => attemptReadString limit
  | .readChar => attemptReadChar
  | .write data offered => attemptWrite data offered
  | .flush => attemptFlush
  | .accept => attemptAccept
  | .dial host port deadline => attemptDial host port deadline
  | .connect listener host port deadline => attemptConnect listener host port deadline
  | .address host => attemptAddress host

def settle : Course Exec.settle where
  visits session :=
    match session.executor.wait with
    | some wait => (attempt wait).visits session
    | none => []
  arrives := by
    intro session
    unfold Exec.settle
    cases session.executor.wait with
    | some wait => exact (attempt wait).arrives session
    | none => rfl

/-! ## Calls -/

def fork (target : UInt32) (arguments : Array Word) : Course (Exec.fork target arguments) :=
  get.bind fun _ =>
    .ite (fail _)
      ((allocate? _).bind fun
        | none => fail _
        | some _ => (modifyShared _).bind fun _ => push _)

def call (target : UInt32) (count : Nat) (mode : UInt8) : Course (Exec.call target count mode) :=
  match known : CallMode.ofCode? mode with
  | some .normal =>
    ((enter false).bind fun entered =>
      (.ite (jump target) (done ()) :
        Course (if entered then Exec.jump target else pure ()))).of (by rw [Exec.call, known])
  | some .tail =>
    (modifyExecutor fun executor =>
      { executor with consts := executor.consts.release, ip := target }).of
        (by rw [Exec.call, known])
  | some .forked =>
    ((popMany count).bind fun arguments => fork target arguments).of (by rw [Exec.call, known])
  | some .lazy =>
    ((popMany count).bind fun arguments => pushNew (.lazy (.pending target arguments))).of
      (by rw [Exec.call, known])
  | none => (fail .invalidAssembly).of (by rw [Exec.call, known])

def callDynamic (count : Nat) (mode : UInt8) : Course (Exec.callDynamic count mode) :=
  pop.bind fun _ =>
    .ite
      ((look _).bind fun fields =>
        match fields.back? with
        | none => fail _
        | some _ =>
          (pushAll _).bind fun _ => isRunning.bind fun _ => .ite (call _ _ _) (done _))
      (call _ _ _)

/-- The end of an executor, if nothing is left on the stack. -/
def succeed : Course (do
    let session ← MonadState.get
    let left := session.executor.eval.size
    if left ≠ 0 then MonadExcept.throw (Fault.valuesLeft left)
    Exec.modifyExecutor fun executor => { executor with state := .success } : Exec Unit) :=
  get.bind fun _ => .ite ((throw _).bind fun _ => modifyExecutor _) (modifyExecutor _)

def finish : Course Exec.finish :=
  get.bind fun _ =>
    .ite (pop.bind fun _ => (modifyExecutor _).bind fun _ => succeed) succeed

def ret : Course Exec.ret :=
  (action _).bind fun
    | none => finish
    | some _ =>
      (modifyExecutor _).bind fun _ =>
        .ite
          (pop.bind fun _ => pop.bind fun _ => (look _).bind fun _ => (modifyHeap _).bind fun _ =>
            push _)
          (done _)

def await : Course Exec.await :=
  peek.bind fun _ => (look _).bind fun
    | some outcome => takeOutcome outcome
    | none => stay _

def awaitFor : Course Exec.awaitFor :=
  popLong.bind fun _ => peek.bind fun _ => (look _).bind fun _ =>
    .ite (pop.bind fun _ => pushBool _) (platform.bind fun _ => stay _)

def force : Course Exec.force :=
  peek.bind fun _ => (look _).bind fun
    | .forced _ => pop.bind fun _ => push _
    | .pending _ _ => (enter true).bind fun _ => .ite ((pushAll _).bind fun _ => jump _) (done _)

/-! ## Platform calls -/

def writeConsole (text : Bytes) : Course (Exec.writeConsole text) :=
  modifyPlatform _

def openConsole : Course Exec.openConsole :=
  popInt.bind fun number =>
    match ConsoleKind.ofCode? number with
    | some _ => pushStream _
    | none => pushStream _

def readString : Course Exec.readString :=
  popInt.bind fun _ => (peekStream 0).bind fun _ => (allocate? _).bind fun
    | none => fail _
    | some _ => (push _).bind fun _ => stay _

def writeStream (data : Bytes) : Course (Exec.writeStream data) :=
  (peekStream 1).bind fun _ => stay _

def writeStreamChar : Course Exec.writeStreamChar :=
  pop.bind fun _ => (pushInt _).bind fun _ => writeStream _

def changeStream : Course Exec.changeStream :=
  popInt.bind fun _ => popStream.bind fun _ => platform.bind fun _ => pushBool _

/-- To open a file is a single action, which leaves the executor alone. -/
def openFileStream (path : Bytes) (mode flags : Nat) :
    Course (Exec.openFileStream path mode flags) :=
  action _

def openFile : Course Exec.openFile :=
  popInt.bind fun _ => popText.bind fun _ => (openFileStream _ _ _).bind fun _ => pushStream _

def removeFile : Course Exec.removeFile :=
  popText.bind fun path => platform.bind fun platform =>
    match platform.removeFile path with
    | .ok _ => (setPlatform _).bind fun _ => pushBool _
    | .error _ => pushBool _

def connect : Course Exec.connect :=
  popInt.bind fun number => peek.bind fun _ => (text _).bind fun _ =>
    match Exec.port? number with
    | none => takeConnection _
    | some _ => get.bind fun _ => stay _

def listen : Course Exec.listen :=
  popInt.bind fun backlog => popInt.bind fun number =>
    match Exec.port? number with
    | none => pushStream _
    | some port =>
      platform.bind fun platform =>
        match platform.listen port backlog.toInt.toNat with
        | .ok _ => (setPlatform _).bind fun _ => pushStream _
        | .error _ => pushStream _

def lookupAddress : Course Exec.lookupAddress :=
  peek.bind fun _ => (text _).bind fun _ => stay _

def changeTerminal (set : Bool) : Course (Exec.changeTerminal set) :=
  popInt.bind fun options => platform.bind fun platform =>
    match platform.changeTerminal? options.toUInt32 set with
    | some _ => (setPlatform _).bind fun _ => pushBool _
    | none => pushBool _

def argument : Course Exec.argument :=
  platform.bind fun _ => popInt.bind fun _ => pushString _

def environmentVariable : Course Exec.environmentVariable :=
  popText.bind fun _ => platform.bind fun _ => pushString _

def readClock : Course Exec.readClock :=
  platform.bind fun _ => (modifyPlatform _).bind fun _ => done _

def sleep : Course Exec.sleep :=
  peek.bind fun _ => (long _).bind fun _ => platform.bind fun _ => stay _

def assert : Course Exec.assert :=
  popText.bind fun _ => peek.bind fun _ => .ite ((modifyPlatform _).bind fun _ => fail _) (done _)

def platformCall : (call : PlatformCall) → Course (Exec.platformCall call)
  | .writeChar => peek.bind fun _ => writeConsole _
  | .writeString => peek.bind fun _ => (text _).bind fun _ => writeConsole _
  | .writeLine => peek.bind fun _ => (text _).bind fun _ => writeConsole _
  | .readChar => stay _
  | .readLine => stay _
  | .streamValid => popStream.bind fun _ => pushBool _
  | .streamReadString => readString
  | .streamReadChar => (peekStream 0).bind fun _ => stay _
  | .streamWriteString => peek.bind fun _ => (text _).bind fun _ => writeStream _
  | .streamWriteChar => writeStreamChar
  | .streamFlush => (peekStream 0).bind fun _ => stay _
  | .streamSetOptions => changeStream
  | .streamUnsetOptions => changeStream
  | .fileOpen => openFile
  | .fileRemove => removeFile
  | .tcpConnect => connect
  | .tcpListen => listen
  | .tcpAccept => (peekStream 0).bind fun _ => stay _
  | .lookupAddress => lookupAddress
  | .consoleOpen => openConsole
  | .termSetOptions => changeTerminal true
  | .termUnsetOptions => changeTerminal false
  | .termWidth => platform.bind fun _ => pushInt _
  | .termHeight => platform.bind fun _ => pushInt _
  | .envArg => argument
  | .envArgCount => platform.bind fun _ => pushInt _
  | .envVar => environmentVariable
  | .clockMicro => platform.bind fun _ => readClock.bind fun _ => pushLong _
  | .clockNano => readClock.bind fun _ => pushLong _
  | .sleep => sleep
  | .assert => assert

/-! ## Instructions -/

def intBinary (operation : Int32 → Int32 → Int32) : Course (Exec.intBinary operation) :=
  popInt.bind fun _ => popInt.bind fun _ => pushInt _

def intDivision (operation : Int32 → Int32 → Int32) : Course (Exec.intDivision operation) :=
  popInt.bind fun _ => popInt.bind fun _ => .ite (fail _) (pushInt _)

def intTest (test : Int32 → Int32 → Bool) : Course (Exec.intTest test) :=
  popInt.bind fun _ => popInt.bind fun _ => pushBool _

def longBinary (operation : Int64 → Int64 → Int64) : Course (Exec.longBinary operation) :=
  popLong.bind fun _ => popLong.bind fun _ => pushLong _

def longDivision (operation : Int64 → Int64 → Int64) : Course (Exec.longDivision operation) :=
  popLong.bind fun _ => popLong.bind fun _ => .ite (fail _) (pushLong _)

def longTest (test : Int64 → Int64 → Bool) : Course (Exec.longTest test) :=
  popLong.bind fun _ => popLong.bind fun _ => pushBool _

def floatBinary (operation : Number.Single → Number.Single → Number.Single) :
    Course (Exec.floatBinary operation) :=
  popFloat.bind fun _ => popFloat.bind fun _ => pushFloat _

def floatDivision (operation : Number.Single → Number.Single → Number.Single) :
    Course (Exec.floatDivision operation) :=
  popFloat.bind fun _ => popFloat.bind fun _ => .ite (fail _) (pushFloat _)

def floatTest (test : Number.Single → Number.Single → Bool) : Course (Exec.floatTest test) :=
  popFloat.bind fun _ => popFloat.bind fun _ => pushBool _

def floatUnary (operation : Number.Single → Number.Single) : Course (Exec.floatUnary operation) :=
  popFloat.bind fun _ => pushFloat _

def storeConst (slot : UInt8) : Course (Exec.storeConst slot) :=
  pop.bind fun _ => action _

def loadConst (slot : UInt8) : Course (Exec.loadConst slot) :=
  get.bind fun session =>
    match session.executor.consts.load slot with
    | .ok _ => push _
    | .error _ => throw _

def loadString (assembly : Assembly) (number : UInt32) : Course (Exec.loadString assembly number) :=
  match known : assembly.literal? number with
  | some text => (pushString text).of (by rw [Exec.loadString, known])
  | none => (fail .invalidAssembly).of (by rw [Exec.loadString, known])

def slice : Course Exec.slice :=
  popInt.bind fun _ => popInt.bind fun _ => pop.bind fun _ => (text _).bind fun _ =>
    .ite (push _) (pushString _)

def loadField (index : UInt8) : Course (Exec.loadField index) :=
  pop.bind fun _ => (look _).bind fun fields =>
    match fields[index.toNat]? with
    | some _ => push _
    | none => fail _

def perform (assembly : Assembly) (op : Opcode) (operands : Nat) :
    Course (Exec.perform assembly op operands) :=
  match op with
  | .loadInt => pushInt _
  | .loadLong => pushLong _
  | .loadFloat => pushFloat _
  | .loadString => loadString _ _
  | .loadAddress => pushInt _
  | .reserveConsts => reserveConsts _
  | .storeConst => storeConst _
  | .loadConst => loadConst _
  | .dup => peek.bind fun _ => push _
  | .pop => pop.bind fun _ => done _
  | .addInt => intBinary _
  | .subInt => intBinary _
  | .mulInt => intBinary _
  | .divInt => intDivision _
  | .remInt => intDivision _
  | .negInt => popInt.bind fun _ => pushInt _
  | .notInt => popInt.bind fun _ => pushBool _
  | .shiftLeft => intBinary _
  | .shiftRight => intBinary _
  | .andInt => intBinary _
  | .orInt => intBinary _
  | .xorInt => intBinary _
  | .complement => popInt.bind fun _ => pushInt _
  | .addLong => longBinary _
  | .subLong => longBinary _
  | .mulLong => longBinary _
  | .divLong => longDivision _
  | .remLong => longDivision _
  | .negLong => popLong.bind fun _ => pushLong _
  | .addFloat => floatBinary _
  | .subFloat => floatBinary _
  | .mulFloat => floatBinary _
  | .divFloat => floatDivision _
  | .modFloat => floatDivision _
  | .powFloat => floatBinary _
  | .sqrtFloat => floatUnary _
  | .sinFloat => floatUnary _
  | .cosFloat => floatUnary _
  | .tanFloat => floatUnary _
  | .asinFloat => floatUnary _
  | .acosFloat => floatUnary _
  | .atanFloat => floatUnary _
  | .atan2Float => floatBinary _
  | .negFloat => floatUnary _
  | .concat => popText.bind fun _ => popText.bind fun _ => pushString _
  | .appendChar => pop.bind fun _ => pop.bind fun _ => pushNew _
  | .length => popText.bind fun _ => pushInt _
  | .index => popInt.bind fun _ => popText.bind fun _ => pushInt _
  | .slice => slice
  | .combineChars => pop.bind fun _ => pop.bind fun _ => pushString _
  | .eqInt => intTest _
  | .eqLong => longTest _
  | .eqFloat => floatTest _
  | .eqString => popText.bind fun _ => popText.bind fun _ => pushBool _
  | .gtInt => intTest _
  | .gtLong => longTest _
  | .gtFloat => floatTest _
  | .ltInt => intTest _
  | .ltLong => longTest _
  | .ltFloat => floatTest _
  | .isNull => pop.bind fun _ => pushBool _
  | .intToLong => popInt.bind fun _ => pushLong _
  | .intToFloat => popInt.bind fun _ => pushFloat _
  | .longToInt => popLong.bind fun _ => pushInt _
  | .floatToInt => popFloat.bind fun _ => pushInt _
  | .intToString => popInt.bind fun _ => pushString _
  | .longToString => popLong.bind fun _ => pushString _
  | .floatToString => popFloat.bind fun _ => pushString _
  | .boolToString => popInt.bind fun _ => pushString _
  | .charToString => pop.bind fun _ => pushString _
  | .intToChar => pop.bind fun _ => pushInt _
  | .floatToChar => popFloat.bind fun _ => pushInt _
  | .makeStruct => (popMany _).bind fun _ => pushNew _
  | .makeNull => push _
  | .loadField => loadField _
  | .jump => jump _
  | .jumpIf => popInt.bind fun _ => .ite (jump _) (done _)
  | .call => call _ _ _
  | .callDynamic => callDynamic _ _
  | .platformCall =>
    match known : PlatformCall.ofCode? (assembly.code.byteAt operands) with
    | some target => (platformCall target).of (by unfold Exec.perform; simp only [known])
    | none => (fail .invalidAssembly).of (by unfold Exec.perform; simp only [known])
  | .ret => ret
  | .fail => fail _
  | .awaitFor => awaitFor
  | .await => await
  | .force => force

def issue : Course Exec.issue :=
  get.bind fun session =>
    match known : fetch? session.shared.assembly.code session.executor.ip.toNat with
    | none =>
      (modifyExecutor fun executor => { executor with state := .invalidAssembly }).of
        (by simp only [known])
    | some (op, size) =>
      ((modifyExecutor fun executor =>
          { executor with
            current := session.executor.ip
            ip := session.executor.ip + UInt32.ofNat size }).bind fun _ =>
        (modifyShared fun shared => shared.log fun _ =>
            instructionLine session.executor.id session.shared.assembly.code
              session.executor.ip.toNat op).bind fun _ =>
          perform session.shared.assembly op (session.executor.ip.toNat + 1)).of
        (by simp only [known])

end Course

end WordMachine.Exec
