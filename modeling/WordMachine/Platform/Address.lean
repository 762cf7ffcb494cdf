import WordMachine.Text.Bytes

/-!
Numeric network addresses: four decimal bytes, or eight hexadecimal groups of which one run of
zeros may be left out. Each address has one canonical text.
-/

namespace WordMachine.Address

def decimal? (digits : List UInt8) : Option Nat :=
  if digits.isEmpty || !digits.all Bytes.isDigit then none
  else some (digits.foldl (fun value digit => value * 10 + (digit.toNat - 48)) 0)

/-- One decimal byte of an address: no leading zero, at most 255. -/
def octet? (digits : List UInt8) : Option Nat :=
  if 3 < digits.length || (1 < digits.length && digits.head? == some 48) then none
  else
    match decimal? digits with
    | some value => if value ≤ 255 then some value else none
    | none => none

/-- The four bytes of an address in dotted form. -/
def dotted? (text : List UInt8) : Option (List Nat) :=
  let parts := Bytes.splitList 46 [] text
  if parts.length = 4 then parts.mapM octet? else none

def hexDigit? (byte : UInt8) : Option Nat :=
  if 48 ≤ byte && byte ≤ 57 then some (byte.toNat - 48)
  else if 97 ≤ byte && byte ≤ 102 then some (byte.toNat - 87)
  else if 65 ≤ byte && byte ≤ 70 then some (byte.toNat - 55)
  else none

def group? (digits : List UInt8) : Option Nat :=
  if digits.isEmpty || 4 < digits.length then none
  else (digits.mapM hexDigit?).map (List.foldl (fun value digit => value * 16 + digit) 0)

/-- The groups of a side of an address; the last part may be dotted and then counts as two
groups. No text is no group. -/
def groups? (text : List UInt8) : Option (List Nat) :=
  if text.isEmpty then some []
  else
    let parts := Bytes.splitList 58 [] text
    match parts.getLast? with
    | none => none
    | some last =>
      let front := parts.dropLast.mapM group?
      let back :=
        if last.contains 46 then
          match dotted? last with
          | some [a, b, c, d] => some [a * 256 + b, c * 256 + d]
          | _ => none
        else (group? last).map ([·])
      match front, back with
      | some front, some back => some (front ++ back)
      | _, _ => none

def ellipsis? : List UInt8 → List UInt8 → Option (List UInt8 × List UInt8)
  | front, 58 :: 58 :: rest => some (front.reverse, rest)
  | front, byte :: rest => ellipsis? (byte :: front) rest
  | _, [] => none

/-- The eight groups of an address in colon form. -/
def coloned? (text : List UInt8) : Option (List Nat) :=
  match ellipsis? [] text with
  | some (front, back) =>
    -- A dotted part can only end the address.
    if front.contains 46 then none
    else
      match groups? front, groups? back with
      | some front, some back =>
        let count := front.length + back.length
        if count < 8 then some (front ++ List.replicate (8 - count) 0 ++ back) else none
      | _, _ => none
  | none =>
    match groups? text with
    | some groups => if groups.length = 8 then some groups else none
    | none => none

def zeros (groups : List Nat) : Nat :=
  (groups.takeWhile (· == 0)).length

/-- The first longest run of at least two zeros, as its position and length. -/
def longestZeros (groups : List Nat) : Option (Nat × Nat) :=
  (List.range groups.length).foldl
    (fun best position =>
      let length := zeros (groups.drop position)
      let record := match best with
        | some (_, longest) => longest
        | none => 1
      if record < length then some (position, length) else best)
    none

def hexGroups (groups : List Nat) : Bytes :=
  Bytes.join ":" (groups.map (Bytes.hex 1))

def dottedText (bytes : List Nat) : Bytes :=
  Bytes.join "." (bytes.map Bytes.ofNat)

/-- The canonical text of eight groups. An address that embeds four bytes is written dotted. -/
def groupText (groups : List Nat) : Bytes :=
  match groups with
  | [0, 0, 0, 0, 0, 0xffff, high, low] =>
    dottedText [high / 256, high % 256, low / 256, low % 256]
  | _ =>
    match longestZeros groups with
    | some (position, length) =>
      hexGroups (groups.take position) ++ "::" ++ hexGroups (groups.drop (position + length))
    | none => hexGroups groups

/-- The canonical text of a numeric address; nothing for any other text. -/
def canonical? (text : Bytes) : Option Bytes :=
  let bytes := text.toList
  if bytes.contains 58 then (coloned? bytes).map groupText else (dotted? bytes).map dottedText

end WordMachine.Address
