import FluentMerge.Document.Basic

/-!
# Between two entries

What separates two neighbouring entries of a document is line ends, as many as there are bytes
between them. Where that is not known, or the entries overlap, it is one.
-/

namespace FluentMerge

/-- The number of line ends between an entry that ends where `before` does and one that begins where
`after` does. -/
def separatorLength (before after : Option Span) : Nat :=
  match before, after with
  | some b, some a => if b.stop ≤ a.start then a.start - b.stop else 1
  | _, _ => 1

/-- The line ends between two neighbouring entries. -/
def separator (before after : Option Span) : String :=
  String.ofList (List.replicate (separatorLength before after) '\n')

/-- An entry that begins where the one before it ends, or later, is that many line ends away. -/
theorem separatorLength_of_le {b a : Span} (h : b.stop ≤ a.start) :
    b.stop + separatorLength (some b) (some a) = a.start := by
  simp only [separatorLength, if_pos h]
  omega

@[simp] theorem toList_separator (before after : Option Span) :
    (separator before after).toList = List.replicate (separatorLength before after) '\n' :=
  String.toList_ofList

end FluentMerge
