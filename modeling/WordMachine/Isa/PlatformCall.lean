import WordMachine.Text.Bytes

/-!
Platform calls: the operations of a program on the world outside the machine.
-/

namespace WordMachine

/-- An operation of the platform: console, streams, files, network, terminal, environment,
clocks, sleeping and assertions. -/
inductive PlatformCall where
  | writeChar | writeString | writeLine | readChar | readLine | streamValid | streamReadString
  | streamReadChar | streamWriteString | streamWriteChar | streamFlush | streamSetOptions
  | streamUnsetOptions | fileOpen | fileRemove | tcpConnect | tcpListen | tcpAccept | lookupAddress
  | consoleOpen | termSetOptions | termUnsetOptions | termWidth | termHeight | envArg | envArgCount
  | envVar | clockMicro | clockNano | sleep | assert
  deriving DecidableEq, Repr

namespace PlatformCall

def code : PlatformCall → UInt8
  | .writeChar => 1
  | .writeString => 2
  | .writeLine => 3
  | .readChar => 4
  | .readLine => 5
  | .streamValid => 6
  | .streamReadString => 7
  | .streamReadChar => 8
  | .streamWriteString => 9
  | .streamWriteChar => 10
  | .streamFlush => 11
  | .streamSetOptions => 12
  | .streamUnsetOptions => 13
  | .fileOpen => 14
  | .fileRemove => 15
  | .tcpConnect => 16
  | .tcpListen => 17
  | .tcpAccept => 18
  | .lookupAddress => 19
  | .consoleOpen => 20
  | .termSetOptions => 21
  | .termUnsetOptions => 22
  | .termWidth => 23
  | .termHeight => 24
  | .envArg => 25
  | .envArgCount => 26
  | .envVar => 27
  | .clockMicro => 28
  | .clockNano => 29
  | .sleep => 30
  | .assert => 31

def ofCode? (code : UInt8) : Option PlatformCall :=
  match code with
  | 1 => some .writeChar
  | 2 => some .writeString
  | 3 => some .writeLine
  | 4 => some .readChar
  | 5 => some .readLine
  | 6 => some .streamValid
  | 7 => some .streamReadString
  | 8 => some .streamReadChar
  | 9 => some .streamWriteString
  | 10 => some .streamWriteChar
  | 11 => some .streamFlush
  | 12 => some .streamSetOptions
  | 13 => some .streamUnsetOptions
  | 14 => some .fileOpen
  | 15 => some .fileRemove
  | 16 => some .tcpConnect
  | 17 => some .tcpListen
  | 18 => some .tcpAccept
  | 19 => some .lookupAddress
  | 20 => some .consoleOpen
  | 21 => some .termSetOptions
  | 22 => some .termUnsetOptions
  | 23 => some .termWidth
  | 24 => some .termHeight
  | 25 => some .envArg
  | 26 => some .envArgCount
  | 27 => some .envVar
  | 28 => some .clockMicro
  | 29 => some .clockNano
  | 30 => some .sleep
  | 31 => some .assert
  | _ => none

def name : PlatformCall → String
  | .writeChar => "con-write-char"
  | .writeString => "con-write-string"
  | .writeLine => "con-write-string-line"
  | .readChar => "con-read-char"
  | .readLine => "con-read-string-line"
  | .streamValid => "stream-check-valid"
  | .streamReadString => "stream-read-string"
  | .streamReadChar => "stream-read-char"
  | .streamWriteString => "stream-write-string"
  | .streamWriteChar => "stream-write-char"
  | .streamFlush => "stream-flush"
  | .streamSetOptions => "stream-set-options"
  | .streamUnsetOptions => "stream-unset-options"
  | .fileOpen => "file-open-stream"
  | .fileRemove => "file-remove"
  | .tcpConnect => "tcp-open-con"
  | .tcpListen => "tcp-start-server"
  | .tcpAccept => "tcp-accept-con"
  | .lookupAddress => "ip-lookup-address"
  | .consoleOpen => "console-open-stream"
  | .termSetOptions => "term-set-options"
  | .termUnsetOptions => "term-unset-options"
  | .termWidth => "term-get-width"
  | .termHeight => "term-get-height"
  | .envArg => "get-env-arg"
  | .envArgCount => "get-env-arg-count"
  | .envVar => "get-env-var"
  | .clockMicro => "clock-micro-since-epoch"
  | .clockNano => "clock-nano-steady"
  | .sleep => "sleep-nano"
  | .assert => "assert"

def nameOf (code : UInt8) : Bytes :=
  match ofCode? code with
  | some call => call.name
  | none => "pcall(" ++ Bytes.ofNat code.toNat ++ ")"

/-- The byte whose platform call has the given name. -/
def codeOfName? (name : Bytes) : Option UInt8 :=
  ((List.range 256).map Nat.toUInt8).find? fun code =>
    match ofCode? code with
    | some call => call.name.toUTF8 == name
    | none => false

theorem ofCode?_code (call : PlatformCall) : ofCode? call.code = some call := by
  cases call <;> rfl

end PlatformCall

end WordMachine
