import FluentMerge.Json.Value

/-!
# JSON as text

Writes a value over several lines: each item and each member on a line of its own, two spaces
further in than what holds it. Of the characters in a string only quotes, backslashes and control
characters are escaped.
-/

namespace FluentMerge.Json

/-- Four hexadecimal digits. -/
def fourDigits (n : Nat) : List Char :=
  let digits := Nat.toDigits 16 n
  List.replicate (4 - digits.length) '0' ++ digits

/-- A character as it is written in a string. -/
def escapeChar (c : Char) : List Char :=
  if c = '"' then ['\\', '"']
  else if c = '\\' then ['\\', '\\']
  else if c = '\x08' then ['\\', 'b']
  else if c = '\x0c' then ['\\', 'f']
  else if c = '\n' then ['\\', 'n']
  else if c = '\r' then ['\\', 'r']
  else if c = '\t' then ['\\', 't']
  else if c.toNat < 0x20 then '\\' :: 'u' :: fourDigits c.toNat
  else [c]

/-- A string between quotes. -/
def quote (s : String) : String :=
  String.ofList ('"' :: s.toList.flatMap escapeChar ++ ['"'])

/-- A line end and the indent of the next line. -/
def newLine (depth : Nat) : String := String.ofList ('\n' :: List.replicate (2 * depth) ' ')

/-- Lines between brackets, and nothing between them if there is none. -/
def bracket (opening closing : String) (depth : Nat) (lines : List String) : String :=
  if lines = [] then opening ++ closing
  else
    opening ++ newLine (depth + 1) ++ ("," ++ newLine (depth + 1)).intercalate lines ++
      newLine depth ++ closing

mutual

/-- A value, inside `depth` others. -/
def renderIn (depth : Nat) : Json → String
  | .null => "null"
  | .bool b => if b then "true" else "false"
  | .natural n => toString n
  | .otherNumber text => text
  | .string s => quote s
  | .array items => bracket "[" "]" depth (renderItems (depth + 1) items)
  | .object members => bracket "\x7b" "\x7d" depth (renderMembers (depth + 1) members)

/-- The items of an array. -/
def renderItems (depth : Nat) : List Json → List String
  | [] => []
  | j :: rest => renderIn depth j :: renderItems depth rest

/-- The members of an object. -/
def renderMembers (depth : Nat) : List (String × Json) → List String
  | [] => []
  | (name, j) :: rest => (quote name ++ ": " ++ renderIn depth j) :: renderMembers depth rest

end

/-- The text of a value. -/
def render (j : Json) : String := j.renderIn 0

end FluentMerge.Json
