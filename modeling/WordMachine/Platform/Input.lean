import WordMachine.Text.Bytes

/-!
Console input. A program's reads go through one buffer: the first `used` bytes of the source have
been given to the program, the bytes up to `fetched` wait in the buffer, and the rest has not been
asked for. How much is buffered decides how many bytes a read returns at most.
-/

namespace WordMachine

/-- Buffered console input. -/
structure Input where
  source : Bytes
  used : Nat := 0
  fetched : Nat := 0
  deriving Inhabited

namespace Input

def bufferSize : Nat := 4096

def waiting (input : Input) : Nat :=
  input.fetched - input.used

/-- The number of bytes not yet taken from the source. -/
def remaining (input : Input) : Nat :=
  input.source.size - input.fetched

/-- Takes up to `count` bytes from the source and hands them out, past the buffer. -/
def take (input : Input) (count : Nat) : Bytes × Input :=
  let last := min (input.fetched + count) input.source.size
  (input.source.extract input.fetched last, { input with used := last, fetched := last })

/-- Tops the buffer up from the source. -/
def fill (input : Input) : Input :=
  { input with
    fetched := min (input.fetched + (bufferSize - input.waiting)) input.source.size }

def consume (input : Input) (count : Nat) : Bytes × Input :=
  let last := min (input.used + count) input.fetched
  (input.source.extract input.used last, { input with used := last })

/-- Reads at least one byte and up to `count`; empty only at the end of the input. A read that
finds the buffer empty goes to the source, past the buffer if it asks for a buffer's worth. -/
def read (input : Input) (count : Nat) : Bytes × Input :=
  if input.waiting = 0 then
    if bufferSize ≤ count then input.take count else input.fill.consume count
  else input.consume count

def readByte (input : Input) : Option UInt8 × Input :=
  let input := if input.waiting = 0 then input.fill else input
  let (text, input) := input.consume 1
  (text[0]?, input)

/-- Position of the end of the line that starts at `position`: one past its newline, or the end
of the source. -/
def lineEnd (input : Input) (position : Nat) : Nat :=
  match Bytes.indexOf? input.source 10 position with
  | some newline => newline + 1
  | none => input.source.size

/-- How far the source has been fetched once the buffer was refilled until it holds `target`. A
full buffer is emptied into the line before it is refilled. -/
def fetchedThrough (target size : Nat) : Nat → Nat → Nat → Nat
  | 0, _, fetched => fetched
  | fuel + 1, used, fetched =>
    if target ≤ fetched then fetched
    else
      let used := if bufferSize ≤ fetched - used then fetched else used
      fetchedThrough target size fuel used (min (fetched + (bufferSize - (fetched - used))) size)

def dropEnding (text : Bytes) (byte : UInt8) : Bytes :=
  if text.size ≠ 0 ∧ text[text.size - 1]? = some byte then Bytes.take text (text.size - 1) else text

/-- Reads the rest of the current line, without its line end: a newline, a carriage return, or a
carriage return and a newline. -/
def readLine (input : Input) : Bytes × Input :=
  let last := input.lineEnd input.used
  let fetched := fetchedThrough last input.source.size input.source.size input.used input.fetched
  let line := input.source.extract input.used last
  (dropEnding (dropEnding line 10) 13, { input with used := last, fetched })

end Input

end WordMachine
