/-!
# White space

The characters of the Unicode property `White_Space`, and the trimming of text by them. Quoted
strings, catalog lines, header fields and the source of a placeable are all trimmed by this one
set.

`head?_trimStart` and `getLast?_trimEnd` say what is left: a text with no white space at that end.
-/

namespace FluentMerge.Text

/-- Whether `c` has the Unicode property `White_Space`. -/
def isWhite (c : Char) : Bool :=
  ('\t' ≤ c && c ≤ '\r') || c == ' ' || c == '\u0085' || c == '\u00a0' || c == '\u1680' ||
    ('\u2000' ≤ c && c ≤ '\u200a') || c == '\u2028' || c == '\u2029' || c == '\u202f' ||
    c == '\u205f' || c == '\u3000'

/-- The text without the white space that it begins with. -/
def trimStart (s : List Char) : List Char := s.dropWhile isWhite

/-- The text without the white space that it ends with. -/
def trimEnd (s : List Char) : List Char := (s.reverse.dropWhile isWhite).reverse

/-- The text without the white space at its two ends. -/
def trim (s : List Char) : List Char := trimEnd (trimStart s)

/-- Every white character that the standard library knows is white here too. -/
theorem isWhite_of_isWhitespace {c : Char} (h : c.isWhitespace = true) : isWhite c = true := by
  simp only [Char.isWhitespace, Bool.or_eq_true, decide_eq_true_eq] at h
  rcases h with ((rfl | rfl) | rfl) | rfl <;> decide

@[simp] theorem trim_nil : trim [] = [] := rfl

/-- A text that begins with a character that is not white keeps all of its beginning. -/
theorem trimStart_cons_of_not {c : Char} {s : List Char} (h : isWhite c = false) :
    trimStart (c :: s) = c :: s := by
  simp [trimStart, h]

/-- A text that ends with a character that is not white keeps all of its end. -/
theorem trimEnd_concat_of_not {c : Char} {s : List Char} (h : isWhite c = false) :
    trimEnd (s ++ [c]) = s ++ [c] := by
  simp [trimEnd, h]

/-- The text that is left begins with no white space. -/
theorem head?_trimStart (s : List Char) : ∀ c ∈ (trimStart s).head?, isWhite c = false := by
  intro c hc
  induction s with
  | nil => simp [trimStart] at hc
  | cons d t ih =>
    by_cases hd : isWhite d = true
    · exact ih (by simpa [trimStart, hd] using hc)
    · have hd' : isWhite d = false := by simpa using hd
      rw [trimStart_cons_of_not hd'] at hc
      simp_all

/-- The text that is left ends with no white space. -/
theorem getLast?_trimEnd (s : List Char) : ∀ c ∈ (trimEnd s).getLast?, isWhite c = false := by
  intro c hc
  have := head?_trimStart s.reverse c
  simp only [trimEnd, List.getLast?_reverse] at hc
  exact this hc

end FluentMerge.Text
