import WordMachine.Text.Quoted
import WordMachine.Text.LowerCase

/-!
Trace events: what the tools are doing, as begins and ends of spans, single points and signs of
life, each with the granularity of what it speaks of.
-/

namespace WordMachine.Tracing

/-- What an event says. Any byte is a kind; only some have a name. -/
structure Kind where
  code : UInt8
  deriving DecidableEq, Inhabited

namespace Kind

def spanBegin : Kind := ⟨1⟩

def spanEnd : Kind := ⟨2⟩

def point : Kind := ⟨3⟩

def heartbeat : Kind := ⟨4⟩

def name (kind : Kind) : String :=
  match kind.code with
  | 1 => "begin"
  | 2 => "end"
  | 3 => "point"
  | 4 => "heartbeat"
  | _ => "unknown"

def sign (kind : Kind) : String :=
  match kind.code with
  | 1 => "→ "
  | 2 => "← "
  | 3 => "• "
  | 4 => "♡ "
  | _ => ""

end Kind

/-- The granularity of an event, coarse ones first. Any byte is a scope. -/
structure Scope where
  code : UInt8
  deriving DecidableEq, Inhabited

namespace Scope

def driver : Scope := ⟨1⟩

def phase : Scope := ⟨2⟩

/-- One function, file, entry point, forked call or collection. -/
def unit : Scope := ⟨3⟩

def instr : Scope := ⟨4⟩

def name (scope : Scope) : String :=
  match scope.code with
  | 1 => "driver"
  | 2 => "phase"
  | 3 => "unit"
  | 4 => "instr"
  | _ => "unknown"

end Scope

/-- How much is traced. Any byte is a level. -/
structure Level where
  code : UInt8
  deriving DecidableEq, Inhabited

namespace Level

def off : Level := ⟨0⟩

/-- Everything is kept, for a dump after a failure, but nothing is written. -/
def error : Level := ⟨1⟩

def phase : Level := ⟨2⟩

def detail : Level := ⟨3⟩

def debug : Level := ⟨4⟩

def name (level : Level) : String :=
  match level.code with
  | 0 => "off"
  | 1 => "error"
  | 2 => "phase"
  | 3 => "detail"
  | 4 => "debug"
  | _ => "unknown"

def admits (level : Level) (scope : Scope) : Bool :=
  match level.code with
  | 2 => scope.code ≤ 2
  | 3 => scope.code ≤ 3
  | 4 => true
  | _ => false

def isOn (level : Level) : Bool :=
  level.code != 0

/-- Whether a span or point of a scope is made at all. -/
def wants (level : Level) (scope : Scope) : Bool :=
  level == error || level.admits scope

end Level

/-- Where events go. Any byte is a mode. -/
structure Mode where
  code : UInt8
  deriving DecidableEq, Inhabited

namespace Mode

def stream : Mode := ⟨1⟩

def ring : Mode := ⟨2⟩

def both : Mode := ⟨3⟩

def name (mode : Mode) : String :=
  match mode.code with
  | 1 => "stream"
  | 2 => "ring"
  | 3 => "both"
  | _ => "unknown"

end Mode

/-- The form of written events. -/
inductive Format where
  | auto
  | text
  | records
  deriving DecidableEq, Repr, Inhabited

/-! ## Names on the command line, in any letter case -/

def choose {α : Type} (words : List (String × α)) (text : Bytes) : Option α :=
  (words.find? fun (word, _) => word.toUTF8 == Text.lower text).map (·.2)

def Level.ofName (text : Bytes) : Except Bytes Level :=
  match choose [("off", off), ("error", error), ("phase", phase), ("detail", detail),
      ("debug", debug)] text with
  | some level => .ok level
  | none =>
    .error ("invalid trace level: " ++ Text.quote text ++
      " (expected: off|error|phase|detail|debug)")

def Mode.ofName (text : Bytes) : Except Bytes Mode :=
  match choose [("stream", stream), ("ring", ring), ("both", both)] text with
  | some mode => .ok mode
  | none =>
    .error ("invalid storage mode: " ++ Text.quote text ++ " (expected: stream|ring|both)")

def Format.ofName (text : Bytes) : Except Bytes Format :=
  match choose [("", auto), ("auto", auto), ("text", .text), ("ndjson", records),
      ("json", records)] text with
  | some format => .ok format
  | none =>
    .error ("invalid trace format: " ++ Text.quote text ++ " (expected: auto|text|ndjson)")

structure Event where
  time : Int := 0
  sequence : Nat := 0
  kind : Kind := ⟨0⟩
  scope : Scope := ⟨0⟩
  /-- The span an event belongs to; zero for none. -/
  span : Nat := 0
  /-- The span around it; zero for none. -/
  parent : Nat := 0
  /-- The thread the event comes from; zero if unknown. -/
  thread : Nat := 0
  name : Bytes := ByteArray.empty
  detail : Bytes := ByteArray.empty
  extra : List (Bytes × Bytes) := []
  deriving Inhabited

/-! ## Dates -/

/-- Year, month and day of a day number counted from the epoch. -/
def civil (day : Int) : Int × Nat × Nat :=
  -- Years are counted from March, so that a leap day is the last day of its year.
  let shifted := day + 719468
  let era := shifted.fdiv 146097
  let dayOfEra := (shifted - era * 146097).toNat
  let yearOfEra :=
    (dayOfEra - dayOfEra / 1460 + dayOfEra / 36524 - dayOfEra / 146096) / 365
  let dayOfYear := dayOfEra - (365 * yearOfEra + yearOfEra / 4 - yearOfEra / 100)
  let shiftedMonth := (5 * dayOfYear + 2) / 153
  let dayOfMonth := dayOfYear - (153 * shiftedMonth + 2) / 5 + 1
  let month := if shiftedMonth < 10 then shiftedMonth + 3 else shiftedMonth - 9
  let year := era * 400 + yearOfEra + if month ≤ 2 then 1 else 0
  (year, month, dayOfMonth)

def padded (width number : Nat) : Bytes :=
  Bytes.padLeft (Bytes.ofNat number) width 48

def clockText (time : Int) : Bytes :=
  let micros := (time.fdiv 1000).fmod 86400000000
  let micros := micros.toNat
  let seconds := micros / 1000000
  padded 2 (seconds / 3600) ++ ":" ++ padded 2 (seconds / 60 % 60) ++ ":" ++
    padded 2 (seconds % 60) ++ "." ++ padded 6 (micros % 1000000)

def dateText (time : Int) : Bytes :=
  let (year, month, day) := civil (time.fdiv 86400000000000)
  padded 4 year.toNat ++ "-" ++ padded 2 month ++ "-" ++ padded 2 day ++ "T" ++ clockText time ++
    "Z"

/-! ## Written events -/

namespace Event

def sortedExtra (event : Event) : List (Bytes × Bytes) :=
  event.extra.mergeSort fun left right => !Bytes.lt right.1 left.1

def toText (event : Event) : Bytes :=
  let indent := if event.parent = 0 then "" else "  "
  let detail := if event.detail.isEmpty then ByteArray.empty else " (" ++ event.detail ++ ")"
  let extra :=
    if event.extra.isEmpty then ByteArray.empty
    else
      let values := event.sortedExtra.map fun (name, value) => name ++ "=" ++ value
      " \x7b" ++ Bytes.join ", " values ++ "\x7d"
  clockText event.time ++ " [" ++ Bytes.padRight event.scope.name.toUTF8 6 32 ++ "] " ++
    indent.toUTF8 ++ event.kind.sign.toUTF8 ++ event.name ++ detail ++ extra ++ "\n"

/-- An event as a record on a line. Zero counters and empty texts are left out, the name is not. -/
def toRecord (event : Event) : Bytes :=
  let counter (name : String) (value : Nat) : List (Bytes × Bytes) :=
    if value = 0 then [] else [(name.toUTF8, Bytes.ofNat value)]
  let members : List (Bytes × Bytes) :=
    [("time".toUTF8, Text.jsonString (dateText event.time)),
      ("seq".toUTF8, Bytes.ofNat event.sequence),
      ("kind".toUTF8, Text.jsonString event.kind.name.toUTF8),
      ("scope".toUTF8, Text.jsonString event.scope.name.toUTF8)] ++
    counter "span_id" event.span ++ counter "parent_id" event.parent ++
    counter "gid" event.thread ++
    [("name".toUTF8, Text.jsonString event.name)] ++
    (if event.detail.isEmpty then [] else [("detail".toUTF8, Text.jsonString event.detail)]) ++
    (if event.extra.isEmpty then []
      else [("extra".toUTF8, Text.jsonObject (event.sortedExtra.map fun (name, value) =>
        (name, Text.jsonString value)))])
  Text.jsonObject members ++ "\n"

def write (event : Event) (format : Format) : Bytes :=
  match format with
  | .records => event.toRecord
  | _ => event.toText

end Event

/-- The number of a span in a list of spans, counted from one; unknown ones are added. -/
def numberSpan (spans : List Nat) (span : Nat) : Nat × List Nat :=
  if span = 0 then (0, spans)
  else
    match spans.findIdx? (· == span) with
    | some position => (position + 1, spans)
    | none => (spans.length + 1, spans ++ [span])

/-- The events with their spans numbered in the order of appearance. -/
def renumber (events : List Event) : List Event :=
  let rec go (spans : List Nat) : List Event → List Event
    | [] => []
    | event :: rest =>
      let (span, spans) := numberSpan spans event.span
      let (parent, spans) := numberSpan spans event.parent
      { event with span, parent } :: go spans rest
  go [] events

end WordMachine.Tracing
