import WordMachine.Text.Bytes

/-!
Masking: text with everything removed that differs from run to run, such as clock times, counters
and durations, so that the logs of two runs can be compared.
-/

namespace WordMachine.Text

def spanDigits (bytes : List UInt8) : List UInt8 × List UInt8 :=
  bytes.span Bytes.isDigit

def after? : List UInt8 → List UInt8 → Option (List UInt8)
  | [], rest => some rest
  | _ :: _, [] => none
  | byte :: start, found :: rest => if byte == found then after? start rest else none

def ascii (text : String) : List UInt8 :=
  text.toUTF8.data.toList

/-- Whether the list has exactly this many digits at its front. -/
def digits? (count : Nat) (bytes : List UInt8) : Option (List UInt8) :=
  if (bytes.take count).length == count && (bytes.take count).all Bytes.isDigit then
    some (bytes.drop count)
  else none

/-- A clock time `HH:MM:SS.ffffff` at the front. -/
def clockTime? (bytes : List UInt8) : Option (List UInt8) := do
  let rest ← after? [58] (← digits? 2 bytes)
  let rest ← after? [58] (← digits? 2 rest)
  let rest ← after? [46] (← digits? 2 rest)
  digits? 6 rest

/-- A duration `N.N ms` at the front. -/
def millis? (bytes : List UInt8) : Option (List UInt8) :=
  match spanDigits bytes with
  | ([], _) => none
  | (_, rest) =>
    match after? [46] rest with
    | none => none
    | some rest =>
      match spanDigits rest with
      | ([], _) => none
      | (_, rest) => after? (ascii " ms") rest

/-- The members of a record that count something. -/
def counters : List (List UInt8) :=
  [ascii "\"seq\":", ascii "\"span_id\":", ascii "\"parent_id\":", ascii "\"gid\":"]

/-- A counting member at the front: its name and what follows its number. -/
def counter? (bytes : List UInt8) : Option (List UInt8 × List UInt8) :=
  counters.findSome? fun name =>
    match after? name bytes with
    | none => none
    | some rest =>
      match spanDigits rest with
      | ([], _) => none
      | (_, rest) => some (name, rest)

def timeMember? (bytes : List UInt8) : Option (List UInt8) :=
  match after? (ascii "\"time\":\"") bytes with
  | none => none
  | some rest => after? [34] (rest.dropWhile (· != 34))

def maskStep (front : UInt8) (bytes : List UInt8) : List UInt8 × List UInt8 :=
  match clockTime? bytes with
  | some rest => (ascii "T", rest)
  | none =>
    match millis? bytes with
    | some rest => (ascii "N ms", rest)
    | none =>
      match timeMember? bytes with
      | some rest => (ascii "\"time\":\"T\"", rest)
      | none =>
        match counter? bytes with
        | some (name, rest) => (name ++ [48], rest)
        | none => ([front], bytes.drop 1)

def maskWith : Nat → List UInt8 → List UInt8 → List UInt8
  | 0, out, _ => out.reverse
  | _, out, [] => out.reverse
  | fuel + 1, out, front :: rest =>
    let (masked, rest) := maskStep front (front :: rest)
    maskWith fuel (masked.reverse ++ out) rest

/-- The text without times, counters and durations. -/
def masked (text : Bytes) : Bytes :=
  Bytes.ofList (maskWith text.size [] text.toList)

def replaceWith (pattern replacement : List UInt8) : Nat → List UInt8 → List UInt8 → List UInt8
  | 0, out, rest => out.reverse ++ rest
  | _, out, [] => out.reverse
  | fuel + 1, out, front :: rest =>
    match after? pattern (front :: rest) with
    | some rest => replaceWith pattern replacement fuel (replacement.reverse ++ out) rest
    | none => replaceWith pattern replacement fuel (front :: out) rest

def replaced (text pattern replacement : Bytes) : Bytes :=
  Bytes.ofList (replaceWith pattern.toList replacement.toList text.size [] text.toList)

/-- The text with all that follows a mark, up to the end of its line, replaced by dots. -/
def elidedAfter (text mark : Bytes) : Bytes :=
  let rec go : Nat → List UInt8 → List UInt8 → List UInt8
    | 0, out, rest => out.reverse ++ rest
    | _, out, [] => out.reverse
    | fuel + 1, out, front :: rest =>
      match after? mark.toList (front :: rest) with
      | some rest =>
        go fuel (ascii "..." ++ mark.toList.reverse ++ out) (rest.dropWhile (· != 10))
      | none => go fuel (front :: out) rest
  Bytes.ofList (go text.size [] text.toList)

end WordMachine.Text
