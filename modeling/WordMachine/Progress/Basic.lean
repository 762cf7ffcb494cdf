import WordMachine.Build.Basic
import WordMachine.Number.Decimal
import WordMachine.Text.Terminal

/-!
The progress of a build as a screen shows it: a spinner, a line for each file, and a bar. Elapsed
times are written as `12ms`, `1.002s` or `1h0m5s`.
-/

namespace WordMachine

namespace Progress

/-! ## Elapsed times -/

/-- The number `value / Nat.pow 10 places` without zeros at its end. -/
def decimalText (value places : Nat) : Bytes :=
  let fraction := Bytes.padLeft (Bytes.ofNat (value % Nat.pow 10 places)) places 48
  let digits := (fraction.toList.reverse.dropWhile (· == 48)).reverse
  let whole := Bytes.ofNat (value / Nat.pow 10 places)
  if places = 0 || digits.isEmpty then whole else whole ++ "." ++ Bytes.ofList digits

/-- A time in nanoseconds, in the largest units it fills. -/
def elapsedText (nanos : Nat) : Bytes :=
  if nanos = 0 then "0s"
  else if nanos < 1000 then Bytes.ofNat nanos ++ "ns"
  else if nanos < 1000000 then decimalText nanos 3 ++ "µs"
  else if nanos < 1000000000 then decimalText nanos 6 ++ "ms"
  else
    let seconds := nanos / 1000000000
    let minutes := seconds / 60
    let secondText := decimalText (nanos % 60000000000) 9 ++ "s"
    if minutes = 0 then secondText
    else if minutes < 60 then Bytes.ofNat minutes ++ "m" ++ secondText
    else Bytes.ofNat (minutes / 60) ++ "h" ++ Bytes.ofNat (minutes % 60) ++ "m" ++ secondText

def longest : Nat :=
  9223372036854775807

/-- A time rounded to milliseconds, a half upwards. -/
def roundedToMillis (nanos : Nat) : Nat :=
  let rest := nanos % 1000000
  if rest * 2 < 1000000 then nanos - rest else min longest (nanos + 1000000 - rest)

/-! ## Progress -/

/-- Progress of one file. Any text can name a stage or a status; those of a build have a
meaning. -/
structure Event where
  file : Bytes
  stage : Bytes
  status : Bytes
  error : Option Bytes := none
  elapsed : Int64 := 0

/-- A file and how far it is. -/
structure Item where
  path : Bytes
  stage : Bytes := Build.Stage.load.name
  status : Bytes := Build.Status.queued.name
  error : Option Bytes := none
  elapsed : Int64 := 0
  /-- How many stages have ended. -/
  finished : Nat := 0
  deriving Inhabited

namespace Item

def hasStatus (item : Item) (status : Build.Status) : Bool :=
  item.status == status.name.toUTF8

def hasStage (item : Item) (stage : Build.Stage) : Bool :=
  item.stage == stage.name.toUTF8

/-- Whether nothing more will happen to a file. -/
def settled (item : Item) : Bool :=
  item.hasStatus .error || (item.hasStatus .done && item.hasStage .write)

/-- The word for how far a file is. -/
def label (item : Item) : Bytes :=
  if item.hasStatus .error then "error"
  else if item.settled then "done"
  else if item.hasStatus .queued then "queued"
  else if item.hasStage .load then "loading"
  else if item.hasStage .generate then "generating"
  else "writing"

def apply (item : Item) (event : Event) : Item :=
  let item := { item with stage := event.stage, status := event.status }
  if item.hasStatus .done then
    { item with finished := item.finished + 1, elapsed := item.elapsed + event.elapsed }
  else if item.hasStatus .error then
    { item with error := event.error, elapsed := item.elapsed + event.elapsed }
  else item

/-- The share of a file that is done. Its stages are counted, so that a file whose events come
twice gets past the whole. -/
def share (item : Item) : Float :=
  if item.settled then 1 else Float.ofNat item.finished / 3

end Item

end Progress

/-- The screen of a build. -/
structure Progress where
  title : Bytes
  items : Array Progress.Item
  width : Int := 80
  barWidth : Int := 76
  frame : Nat := 0
  done : Bool := false

namespace Progress

def start (title : Bytes) (files : List Bytes) : Progress where
  title
  items := (files.map fun path => ({ path } : Item)).toArray

/-- The place of a file; the last one if it is listed more than once. -/
def position? (screen : Progress) (file : Bytes) : Option Nat :=
  (List.range screen.items.size).reverse.find? fun position =>
    (screen.items[position]?.map Item.path) == some file

/-- Applies an event; files that are not listed do not matter. -/
def apply (screen : Progress) (event : Event) : Progress :=
  match screen.position? event.file with
  | none => screen
  | some position => { screen with items := screen.items.modify position (·.apply event) }

def finish (screen : Progress) : Progress :=
  { screen with done := true }

/-- Takes the width of the window; anything else than a positive one is ignored. -/
def resize (screen : Progress) (width : Int) : Progress :=
  if 0 < width then { screen with width, barWidth := width - 4 } else screen

def frames : List String :=
  ["⣾ ", "⣽ ", "⣻ ", "⢿ ", "⡿ ", "⣟ ", "⣯ ", "⣷ "]

/-- Turns the spinner, unless the build is done. -/
def tick (screen : Progress) : Progress :=
  if screen.done then screen
  else { screen with frame := (screen.frame + 1) % frames.length }

def settled (screen : Progress) : Nat :=
  screen.items.toList.countP Item.settled

def failed (screen : Progress) : Nat :=
  screen.items.toList.countP (·.hasStatus .error)

def labels (screen : Progress) : List Bytes :=
  screen.items.toList.map Item.label

/-- The share of the build that is done: the shares of its files, summed in their order. -/
def share (screen : Progress) : Float :=
  if screen.items.isEmpty then 0
  else
    screen.items.foldl (fun total item => total + item.share) 0 / Float.ofNat screen.items.size

def shareText (screen : Progress) : Bytes :=
  match Number.ofDouble screen.share.toBits with
  | .finite _ mantissa exponent => Number.fixed (.scaled mantissa exponent) 6
  | _ => ByteArray.empty

/-! ## The screen -/

def withoutReturns : List Bytes → List Bytes
  | [] => []
  | [last] => [last]
  | line :: rest =>
    (if line.endsWith "\r" then Bytes.take line (line.size - 1) else line) :: withoutReturns rest

/-- Text in a block: tabs become blanks, and the lines get the same width. -/
def block (text : Bytes) : Bytes :=
  let expanded := Bytes.ofList (text.toList.flatMap fun byte =>
    if byte == 9 then [32, 32, 32, 32] else [byte])
  match withoutReturns (Bytes.split expanded 10) with
  | [line] => line
  | lines =>
    let width := (lines.map Text.screenWidth).foldl max 0
    Bytes.join "\n" (lines.map fun line =>
      line ++ Bytes.replicate (width - Text.screenWidth line) 32)

def header (screen : Progress) : Bytes :=
  let counts := screen.title ++ " " ++ Bytes.ofNat screen.settled ++ "/" ++
    Bytes.ofNat screen.items.size
  let counts :=
    if 0 < screen.failed then counts ++ ", " ++ Bytes.ofNat screen.failed ++ " failed" else counts
  if screen.done then "done: " ++ counts
  else (frames[screen.frame]?.getD "").toUTF8 ++ " " ++ counts

def nameWidth (screen : Progress) : Int :=
  max (screen.width - 28) 20

def itemView (screen : Progress) (item : Item) : Bytes :=
  let time :=
    if item.settled && 0 < item.elapsed then
      " " ++ elapsedText (roundedToMillis item.elapsed.toNatClampNeg)
    else ByteArray.empty
  let error := match item.error with
    | some error =>
      Bytes.replicate 15 32 ++ block (Text.shortened error screen.nameWidth) ++ "\n"
    | none => ByteArray.empty
  "  " ++ Bytes.padLeft item.label 12 32 ++ " " ++ Text.shortened item.path screen.nameWidth ++
    time ++ "\n" ++ error

/-- The bar: it stays empty until the build is done, and is full then. -/
def bar (screen : Progress) : Bytes :=
  let cell : Bytes := if screen.done then "█" else "░"
  let percent : Bytes := if screen.done then " 100%" else "   0%"
  Bytes.concat (List.replicate (screen.barWidth - 5).toNat cell) ++ percent

/-- The whole screen; nothing without files. -/
def view (screen : Progress) : Bytes :=
  if screen.items.isEmpty then ByteArray.empty
  else
    block screen.header ++ "\n\n" ++
      Bytes.concat (screen.items.toList.map screen.itemView) ++ "\n" ++ screen.bar ++ "\n"

end Progress

end WordMachine
