import FluentMerge.Text.GraphemeExtend

/-!
# Texts quoted for a reader

Writes a text between quotes so that a reader sees each of its characters: line ends and tabs by
their letters, and whatever would not show, or would join what is before it, by its number.
-/

namespace FluentMerge.Text

/-- The hexadecimal digits of a number, in lower case and without zeros before them. -/
def hexadecimal (n : Nat) : List Char := Nat.toDigits 16 n

/-- A character as it is shown between quotes. -/
def displayChar (c : Char) : List Char :=
  if c = '\x00' then ['\\', '0']
  else if c = '\t' then ['\\', 't']
  else if c = '\r' then ['\\', 'r']
  else if c = '\n' then ['\\', 'n']
  else if c = '"' then ['\\', '"']
  else if c = '\\' then ['\\', '\\']
  else if isDrawnOnPrevious c || !isPrintable c then
    ['\\', 'u', '\x7b'] ++ hexadecimal c.toNat ++ ['\x7d']
  else [c]

/-- The text between quotes. -/
def display (s : List Char) : List Char := '"' :: s.flatMap displayChar ++ ['"']

end FluentMerge.Text
