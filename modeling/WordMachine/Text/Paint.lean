import WordMachine.Text.Bytes

/-!
Colours on a terminal: text between the escape sequences that switch attributes on and off.
-/

namespace WordMachine

/-- Terminal attributes of a piece of text: what switches them on and off. -/
structure Paint where
  start : Bytes
  finish : Bytes

namespace Paint

/-- The text between its escape sequences, or bare without colour. -/
def apply (paint : Paint) (color : Bool) (text : Bytes) : Bytes :=
  if color then "\x1b[" ++ paint.start ++ "m" ++ text ++ "\x1b[" ++ paint.finish ++ "m" else text

end Paint

end WordMachine
