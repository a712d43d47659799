import FluentMerge.Document.SyntaxError

/-!
# Reading at the front of a text

A reader takes the text that is left and gives a value and what is then left of it, which is a tail
of what it was given. So the end of a text is never overrun, what was read is the difference of the
two, and a recursion that has removed one character before it goes on reading ends.

This module holds the readers without recursion through one another: blanks, names, numbers and
string literals.
-/

namespace FluentMerge

/-- What reading at the front of `s` gives: a value, and what is left of `s`. -/
structure Reading (α : Type) (s : List Char) where
  value : α
  rest : List Char
  isSuffix : rest <:+ s

/-- A reading, or the first fault. -/
abbrev Read (α : Type) (s : List Char) := Except SyntaxError (Reading α s)

namespace Reading

/-- Reads nothing. -/
def here {α : Type} {s : List Char} (value : α) : Reading α s := ⟨value, s, List.suffix_rfl⟩

/-- Reading at a tail of `s` is reading in `s`. -/
def within {α : Type} {s t : List Char} (r : Reading α t) (h : t <:+ s) : Reading α s :=
  ⟨r.value, r.rest, r.isSuffix.trans h⟩

/-- The same reading with another value. -/
def map {α β : Type} {s : List Char} (f : α → β) (r : Reading α s) : Reading β s :=
  ⟨f r.value, r.rest, r.isSuffix⟩

@[simp] theorem rest_here {α : Type} {s : List Char} (a : α) : (here (s := s) a).rest = s := rfl

@[simp] theorem value_here {α : Type} {s : List Char} (a : α) : (here (s := s) a).value = a := rfl

@[simp] theorem rest_within {α : Type} {s t : List Char} (r : Reading α t) (h : t <:+ s) :
    (r.within h).rest = r.rest := rfl

@[simp] theorem value_within {α : Type} {s t : List Char} (r : Reading α t) (h : t <:+ s) :
    (r.within h).value = r.value := rfl

@[simp] theorem rest_map {α β : Type} {s : List Char} (f : α → β) (r : Reading α s) :
    (r.map f).rest = r.rest := rfl

@[simp] theorem value_map {α β : Type} {s : List Char} (f : α → β) (r : Reading α s) :
    (r.map f).value = f r.value := rfl

/-- What is left is no longer than the text, so a reader can go on with it. -/
theorem length_rest_le {α : Type} {s : List Char} (r : Reading α s) : r.rest.length ≤ s.length :=
  r.isSuffix.length_le

end Reading

/-- Two steps succeed when the first does and the second does with what the first gave. -/
theorem bind_eq_ok_iff {ε α β : Type} {x : Except ε α} {f : α → Except ε β} {b : β} :
    x >>= f = .ok b ↔ ∃ a, x = .ok a ∧ f a = .ok b := by
  cases x with
  | error e => simp [bind, Except.bind]
  | ok a => simp [bind, Except.bind]

/-- What is computed from a step succeeds when the step does. -/
theorem map_eq_ok_iff {ε α β : Type} {x : Except ε α} {f : α → β} {b : β} :
    f <$> x = .ok b ↔ ∃ a, x = .ok a ∧ f a = b := by
  cases x with
  | error e => simp [Functor.map, Except.map]
  | ok a => simp [Functor.map, Except.map]

/-- The part of `s` before its tail `rest`. -/
def consumed (s rest : List Char) : List Char := s.take (s.length - rest.length)

/-- What was read and what is left make up the text. -/
theorem consumed_append {s rest : List Char} (h : rest <:+ s) : consumed s rest ++ rest = s := by
  obtain ⟨t, rfl⟩ := h
  simp [consumed]

/-! ## Blanks

Blank is a space or a line end and nothing else: tabs and other white space are text. -/

/-- The number of spaces at the front of the text. -/
def leadingSpaces (s : List Char) : Nat := (s.takeWhile (· == ' ')).length

/-- The text after its leading spaces. -/
def skipSpaces (s : List Char) : List Char := s.dropWhile (· == ' ')

/-- The text after its leading spaces and line ends. -/
def skipBlank (s : List Char) : List Char := s.dropWhile fun c => c == ' ' || c == '\n'

/-- Spaces are skipped at the front only. -/
theorem skipSpaces_suffix (s : List Char) : skipSpaces s <:+ s := List.dropWhile_suffix _

theorem skipBlank_suffix (s : List Char) : skipBlank s <:+ s := List.dropWhile_suffix _

/-- The number of line ends in the blank lines at the front of a text, and the text from the first
line on that is not blank. Spaces before the end of the text count as a blank line without line
end. -/
def skipBlankLines (s : List Char) : Nat × List Char :=
  match h : skipSpaces s with
  | [] => (0, [])
  | c :: t =>
    if c = '\n' then
      ((skipBlankLines t).1 + 1, (skipBlankLines t).2)
    else (0, s)
termination_by s.length
decreasing_by
  all_goals
    have := (skipSpaces_suffix s).length_le
    simp [h] at this
    omega

/-- The line that is not blank is left with its indent. -/
theorem skipBlankLines_suffix (s : List Char) : (skipBlankLines s).2 <:+ s := by
  fun_induction skipBlankLines s with
  | case1 => simp
  | case2 s t h ih =>
    exact ih.trans ((List.suffix_cons _ _).trans (h ▸ skipSpaces_suffix s))
  | case3 => simp

/-- Whether the line at the front of `s` goes on with the value above it: it begins with an opening
brace, or it is indented and begins with none of the characters that begin something else. -/
def continuesValue (s : List Char) : Bool :=
  match skipSpaces s with
  | [] => false
  | c :: _ => c == '{' || (s.head? == some ' ' && !(['\n', '}', '.', '[', '*'].contains c))

/-! ## Names, numbers and literals -/

namespace Read

/-- A character that a name may go on with. -/
def isNameChar (c : Char) : Bool := c.isAlphanum || c == '_' || c == '-'

/-- Reads a name: a letter, then letters, digits, `_` and `-`. Letters and digits are those of
ASCII. -/
def identifier : (s : List Char) → Read String s
  | [] => .error .identifier
  | c :: s =>
    if c.isAlpha then
      .ok ⟨String.ofList (c :: s.takeWhile isNameChar), s.dropWhile isNameChar,
        (List.dropWhile_suffix _).trans (List.suffix_cons _ _)⟩
    else .error .identifier

/-- Reads the one character `c`. -/
def expect (c : Char) : (s : List Char) → Read Unit s
  | [] => .error (.character c)
  | d :: s => if d = c then .ok ⟨(), s, List.suffix_cons _ _⟩ else .error (.character c)

/-- Reads one or more digits. -/
def digits : (s : List Char) → Read Unit s
  | [] => .error .number
  | c :: s =>
    if c.isDigit then
      .ok ⟨(), s.dropWhile Char.isDigit, (List.dropWhile_suffix _).trans (List.suffix_cons _ _)⟩
    else .error .number

/-- Reads a number without sign: digits, and digits after a point if there is one. -/
def unsignedNumber (s : List Char) : Read Unit s := do
  let whole ← digits s
  match h : whole.rest with
  | '.' :: t =>
    let fraction ← digits t
    return fraction.within ((List.suffix_cons _ _).trans (h ▸ whole.isSuffix))
  | _ => return whole

/-- Reads a number. -/
def number : (s : List Char) → Read Unit s
  | '-' :: s => (·.within (List.suffix_cons _ _)) <$> unsignedNumber s
  | s => unsignedNumber s

/-- Whether `c` is a hexadecimal digit of either case. -/
def isHexDigit (c : Char) : Bool := c.isDigit || ('a' ≤ c && c ≤ 'f') || ('A' ≤ c && c ≤ 'F')

/-- Reads `n` hexadecimal digits. -/
def hexDigits : (n : Nat) → (s : List Char) → Read Unit s
  | 0, _ => .ok (.here ())
  | _ + 1, [] => .error .unicodeEscape
  | n + 1, c :: s =>
    if isHexDigit c then (·.within (List.suffix_cons _ _)) <$> hexDigits n s
    else .error .unicodeEscape

/-- Reads what follows the backslash of an escape: a backslash, a quote, or the code of a character
in four or six hexadecimal digits. -/
def escape : (s : List Char) → Read Unit s
  | [] => .error .unterminatedString
  | c :: s =>
    if c = '\\' ∨ c = '"' then .ok ⟨(), s, List.suffix_cons _ _⟩
    else if c = 'u' then (·.within (List.suffix_cons _ _)) <$> hexDigits 4 s
    else if c = 'U' then (·.within (List.suffix_cons _ _)) <$> hexDigits 6 s
    else if c = '\n' then .error .unterminatedString
    else .error .unknownEscape

/-- Reads a string literal from after its opening quote to after its closing one. It ends on its
line. -/
def stringLiteral : (s : List Char) → Read Unit s
  | [] => .error .unterminatedString
  | c :: s =>
    if c = '"' then .ok ⟨(), s, List.suffix_cons _ _⟩
    else if c = '\n' then .error .unterminatedString
    else if c = '\\' then do
      let code ← escape s
      let literal ← stringLiteral code.rest
      return literal.within (code.isSuffix.trans (List.suffix_cons _ _))
    else do
      let literal ← stringLiteral s
      return literal.within (List.suffix_cons _ _)
termination_by s => s.length
decreasing_by
  · have := code.length_rest_le
    simp
    omega
  · simp

/-- Reads the end of a line, or stands at the end of the text. -/
def lineEnd : (s : List Char) → Read Unit s
  | [] => .ok (.here ())
  | c :: s => if c = '\n' then .ok ⟨(), s, List.suffix_cons _ _⟩ else .error .lineEnd

/-- A name is never empty: it is read off the front. -/
theorem identifier_shorter {s : List Char} {r : Reading String s} (h : identifier s = .ok r) :
    r.rest.length < s.length := by
  cases s with
  | nil => simp [identifier] at h
  | cons c s =>
    simp only [identifier] at h
    split at h
    · cases h
      exact Nat.lt_succ_of_le (List.dropWhile_suffix _).length_le
    · cases h

/-- A character that is read is off the front. -/
theorem expect_shorter {c : Char} {s : List Char} {r : Reading Unit s} (h : expect c s = .ok r) :
    r.rest.length < s.length := by
  cases s with
  | nil => simp [expect] at h
  | cons d s =>
    simp only [expect] at h
    split at h
    · cases h
      simp
    · cases h

end Read

end FluentMerge
