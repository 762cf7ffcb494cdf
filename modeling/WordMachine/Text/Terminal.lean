import WordMachine.Text.Cluster

/-!
Cells that a line takes on a terminal. Escape sequences take none. Everything else is measured by
clusters, whose cells are those of all their characters, with rules of their own for flags,
pictures and Korean syllables.
-/

namespace WordMachine.Text

/-! ## Escape sequences -/

inductive Phase where
  | ground
  | escape
  | escapeMark
  | control
  | controlMark
  /-- At the start of a device control string. -/
  | device
  | deviceParameter
  | deviceMark
  /-- In the text of a device control string. -/
  | deviceText
  | command
  | ignored
  deriving DecidableEq, Repr

namespace Phase

/-- Bytes that lead to the same place from nearly everywhere. -/
def anywhere (byte : UInt8) : Phase :=
  if byte == 0x1b then escape
  else if byte == 0x90 then device
  else if byte == 0x9b then control
  else if byte == 0x9d then command
  else if byte == 0x98 || byte == 0x9e || byte == 0x9f then ignored
  else ground

/-- Control characters that end nothing. -/
def isQuiet (byte : UInt8) : Bool :=
  byte < 0x20 && byte != 0x18 && byte != 0x1a && byte != 0x1b

/-- Marks stand between parameters and the letter that ends a sequence. -/
def isMark (byte : UInt8) : Bool :=
  0x20 ≤ byte && byte < 0x30

def isParameter (byte : UInt8) : Bool :=
  0x30 ≤ byte && byte < 0x40

/-- The place after a byte that the escape character precedes. -/
def introduced (byte : UInt8) : Phase :=
  if byte == 0x50 then device
  else if byte == 0x5b then control
  else if byte == 0x5d then command
  else if byte == 0x58 || byte == 0x5e || byte == 0x5f then ignored
  else ground

def next (phase : Phase) (byte : UInt8) : Phase :=
  match phase with
  | ground => anywhere byte
  | escape =>
    if isQuiet byte || byte == 0x7f then escape
    else if isMark byte then escapeMark
    else if byte < 0x7f && byte != 0x1b then introduced byte
    else anywhere byte
  | escapeMark =>
    if isQuiet byte || byte == 0x7f || isMark byte then escapeMark else anywhere byte
  | control =>
    if isQuiet byte || byte == 0x7f || isParameter byte then control
    else if isMark byte then controlMark
    else anywhere byte
  | controlMark =>
    if isQuiet byte || byte == 0x7f || isMark byte then controlMark else anywhere byte
  | device =>
    if (8 ≤ byte && byte ≤ 13) || byte == 0x1b then deviceText
    else if isQuiet byte || byte == 0x7f then device
    else if isMark byte then deviceMark
    else if isParameter byte then deviceParameter
    else if 0x40 ≤ byte && byte < 0x7f then deviceText
    else anywhere byte
  | deviceParameter =>
    if isQuiet byte || byte == 0x7f || isParameter byte then deviceParameter
    else if isMark byte then deviceMark
    else if 0x40 ≤ byte && byte < 0x7f then deviceText
    else anywhere byte
  | deviceMark =>
    if isQuiet byte || byte == 0x7f || isMark byte then deviceMark
    else if 0x30 ≤ byte && byte < 0x7f then deviceText
    else anywhere byte
  | deviceText =>
    if byte == 0x1b then escape
    else if byte == 0x18 || byte == 0x1a || byte == 0x9c then ground
    else deviceText
  | command =>
    if byte == 0x1b then escape
    else if byte == 0x07 || byte == 0x18 || byte == 0x1a || byte == 0x9c then ground
    else command
  | ignored => if isQuiet byte || (0x20 ≤ byte && byte < 0x80) then ignored else anywhere byte

def shows (phase : Phase) (byte : UInt8) : Bool :=
  phase == ground && 0x20 ≤ byte && byte < 0x80

/-- Whether a byte starts a character of several bytes, which also ends an escape sequence unless
that takes any text. -/
def startsCharacter (phase : Phase) (byte : UInt8) : Bool :=
  0xc2 ≤ byte && byte < 0xf5 && phase != command && phase != deviceText

end Phase

/-! ## Clusters -/

/-- Pictures that are shown like letters unless a mark says otherwise, though they are wide. -/
def plainPictureRanges : List (Nat × Nat) :=
  [(0x3030, 0x3030), (0x303d, 0x303d), (0x3297, 0x3297), (0x3299, 0x3299), (0x1f202, 0x1f202),
    (0x1f237, 0x1f237), (0x1f260, 0x1f265)]

/-- Cells of a code point that joins its neighbours in the given way. -/
def joinedCells (joining : Joining) (code : Nat) : Nat :=
  match joining with
  | .control | .carriageReturn | .lineFeed | .extend | .joiner => 0
  | .regional => 2
  | .pictograph =>
    if inRanges wideRanges code && !inRanges plainPictureRanges code then 2 else 1
  | _ =>
    if code == 0x2e3a then 3
    else if code == 0x2e3b then 4
    else if inRanges wideRanges code then 2
    else 1

/-- The code point that stands for a glyph; a stray byte is shown as the replacement character. -/
def Glyph.code : Glyph → Nat
  | .scalar code => code
  | .stray _ => 0xfffd

def nextGlyph (first : UInt8) (rest : List UInt8) : Glyph × List UInt8 :=
  match leadingScalar? (first :: rest) with
  | some (code, width) => (.scalar code, rest.drop (width - 1))
  | none => (.stray first, rest)

/-- Cells of a cluster, which starts with the given joining, after one more glyph. A picture is
made narrow or wide by a mark; flags and Korean syllables do not grow. -/
def widened (start : Joining) (width : Nat) (glyph : Glyph) : Nat :=
  match start with
  | .pictograph =>
    if glyph.code == 0xfe0e then 1 else if glyph.code == 0xfe0f then 2 else width
  | .regional => width
  | .hangul .leading => width
  | _ => width + joinedCells glyph.joining glyph.code

def restOfCluster (start : Joining) : Nat → ClusterState → Nat → List UInt8 → Nat × List UInt8
  | 0, _, width, bytes => (width, bytes)
  | _, _, width, [] => (width, [])
  | fuel + 1, state, width, first :: rest =>
    let (glyph, after) := nextGlyph first rest
    if state.joins glyph.joining then
      restOfCluster start fuel (state.next glyph.joining) (widened start width glyph) after
    else (width, first :: rest)

/-! ## Lines -/

def screenWidthFrom : Nat → Phase → Nat → List UInt8 → Nat
  | 0, _, width, _ => width
  | _, _, width, [] => width
  | fuel + 1, phase, width, first :: rest =>
    if phase.startsCharacter first then
      let (glyph, after) := nextGlyph first rest
      let joining := glyph.joining
      let (cells, after) := restOfCluster joining after.length (.start joining)
        (joinedCells joining glyph.code) after
      screenWidthFrom fuel .ground (width + cells) after
    else if phase.shows first then screenWidthFrom fuel .ground (width + 1) rest
    else screenWidthFrom fuel (phase.next first) width rest

def screenWidth (line : Bytes) : Nat :=
  screenWidthFrom line.size .ground 0 line.toList

end WordMachine.Text
