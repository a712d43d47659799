import FluentMerge.Catalog.Fault
import FluentMerge.Text.Blank

/-!
# Quoted strings

The strings of a catalog: a quote, then characters and escapes, then a quote, and nothing but white
space around them. A backslash with a character that makes no escape stands for both.
-/

namespace FluentMerge.Quoted

/-- What a backslash and `c` stand for. -/
def unescape (c : Char) : List Char :=
  match c with
  | 'n' => ['\n']
  | 't' => ['\t']
  | 'r' => ['\r']
  | 'a' => ['\x07']
  | 'b' => ['\x08']
  | 'f' => ['\x0c']
  | 'v' => ['\x0b']
  | '"' => ['"']
  | '\\' => ['\\']
  | c => ['\\', c]

/-- Reads from after the opening quote: what the string stands for, and the text after the closing
quote. A string without closing quote gives nothing. -/
def body? : List Char → Option (List Char × List Char)
  | [] => none
  | c :: s =>
    if c = '"' then some ([], s)
    else if c = '\\' then
      match s with
      | [] => none
      | d :: t => (body? t).map fun r => (unescape d ++ r.1, r.2)
    else (body? s).map fun r => (c :: r.1, r.2)

/-- What a quoted string stands for. -/
def unquote (s : List Char) : Except CatalogFault String :=
  match Text.trim s with
  | [] => .error .expectedString
  | c :: t =>
    if c = '"' then
      match body? t with
      | none => .error .unterminatedString
      | some (value, after) =>
        if Text.trim after = [] then .ok (String.ofList value) else .error .expectedString
    else .error .expectedString

end FluentMerge.Quoted
