import FluentMerge.Text.Blank

/-!
# Declared charsets

Finds where a text declares its charset: the word `charset`, an equals sign and a label, white space
around the sign allowed. The first place that is a whole declaration counts.

Letters are compared without case, and by Unicode's rules on case the long s is an s and the Kelvin
sign is a k.
-/

namespace FluentMerge.Charset

/-- The character in lower case. Of the characters that a declaration is made of, these are the ones
that have another case. -/
def lowerChar (c : Char) : Char := if c = '\u212a' then 'k' else c.toLower

/-- Whether `c` may stand in a label. -/
def isLabelChar (c : Char) : Bool :=
  c.isAlphanum || ['_', '.', ':', '-', '\u017f', '\u212a'].contains c

/-- Whether `c` is the letter `letter`, whatever its case. -/
def isLetterAnyCase (letter c : Char) : Bool :=
  c.toLower == letter || (letter == 's' && c == '\u017f')

/-- The text after the word `word`, whatever its case, if it begins with it. -/
def afterWord? : (word s : List Char) → Option (List Char)
  | [], s => some s
  | _ :: _, [] => none
  | w :: word, c :: s => if isLetterAnyCase w c then afterWord? word s else none

/-- The label that is declared at the very front of `s`. -/
def labelHere? (s : List Char) : Option (List Char) := do
  let t ← afterWord? "charset".toList s
  match Text.trimStart t with
  | [] => none
  | c :: u =>
    let label := (Text.trimStart u).takeWhile isLabelChar
    if c = '=' ∧ label ≠ [] then some (label.map lowerChar) else none

/-- The first label that a text declares, in lower case. -/
def declared? : List Char → Option (List Char)
  | [] => none
  | c :: s =>
    match labelHere? (c :: s) with
    | some label => some label
    | none => declared? s

end FluentMerge.Charset
