import FluentMerge.Catalog.Basic
import FluentMerge.Document.Basic

/-!
# Looking a pattern up

A pattern is translated only if it is one simple text. The catalog is asked for that text with its
first line end made a space, and what it gives is the first translation. Whatever is not found is
the empty text.
-/

namespace FluentMerge

/-- The text of a pattern that is one text and not empty. -/
def Pattern.simpleText? (p : Pattern) : Option String :=
  match p.elements with
  | [.text value] => if value = "" then none else some value
  | _ => none

/-- The text with its first line end made a space. -/
def spaceFirstLineEnd : List Char → List Char
  | [] => []
  | c :: s => if c = '\n' then ' ' :: s else c :: spaceFirstLineEnd s

/-- One line end fewer is left, if there was one. -/
theorem count_spaceFirstLineEnd (s : List Char) :
    (spaceFirstLineEnd s).count '\n' = s.count '\n' - 1 := by
  induction s with
  | nil => rfl
  | cons c s ih =>
    by_cases h : c = '\n'
    · subst h
      simp [spaceFirstLineEnd]
    · simp [spaceFirstLineEnd, h, ih]

/-- The length stays. -/
@[simp] theorem length_spaceFirstLineEnd (s : List Char) :
    (spaceFirstLineEnd s).length = s.length := by
  induction s with
  | nil => rfl
  | cons c s ih => by_cases h : c = '\n' <;> simp [spaceFirstLineEnd, h, ih]

/-- The text under which a catalog is asked for a simple text. -/
def lookupKey (text : String) : String := String.ofList (spaceFirstLineEnd text.toList)

namespace Translations

/-- The first translation of a text, empty if there is none. -/
def localized (t : Translations) (msgid : String) : String :=
  (t[msgid]?.map Record.localized).getD ""

/-- The translation of a pattern, empty if there is none. -/
def ofPattern (t : Translations) (p : Option Pattern) : String :=
  match p.bind Pattern.simpleText? with
  | none => ""
  | some text => t.localized (lookupKey text)

end Translations

end FluentMerge
