import FluentMerge.Proofs.Document.Composition

/-!
# The outline of a document

The outline keeps of a document the names of its messages, in order, and a mark for each stretch of
junk. It does not depend on where the document stands, nor on which comments are given to entries,
and the outline of one text below another is the one outline behind the other.
-/

namespace FluentMerge

open Read
open Text (byteLength)

/-- What an entry counts for: a message for its name, junk for a mark, anything else for nothing. -/
def Entry.outline? : Entry → Option (Option String)
  | .message m => some (some m.id)
  | .junk _ => some none
  | _ => none

/-- The names of the messages in order, and a mark for each stretch of junk. -/
def outline (es : List Entry) : List (Option String) := es.filterMap Entry.outline?

/-- The outline of the entries of a text. -/
def textOutline (s : List Char) : List (Option String) := outline (separateEntries 0 s)

/-- The outline of an entry does not tell where it stands. -/
@[simp] theorem Entry.outline?_withSpan (e : Entry) (s : Span) :
    (e.withSpan s).outline? = e.outline? := by
  cases e <;> rfl

@[simp] theorem Entry.outline?_unannotated (e : Entry) : e.unannotated.outline? = e.outline? := by
  cases e <;> rfl

@[simp] theorem outline_nil : outline [] = [] := rfl

/-- An outline goes on entry by entry. Terms and comments add nothing to it. -/
theorem outline_cons (e : Entry) (es : List Entry) :
    outline (e :: es) = e.outline?.toList ++ outline es := by
  cases h : e.outline? <;> simp [outline, h]

/-- Which entry a comment belongs to does not matter. -/
theorem outline_attachComments (es : List Entry) : outline (attachComments es) = outline es := by
  fun_induction attachComments es with
  | case1 => rfl
  | case2 c below rest e he ih =>
    have hsame : e.outline? = below.outline? := by
      obtain ⟨m, rfl, rfl⟩ | ⟨t, rfl, rfl⟩ := Comment.attachTo?_cases he <;> rfl
    rw [outline_cons, outline_cons, outline_cons, ih, hsame]
    rfl
  | case3 c below rest he ih => rw [outline_cons, outline_cons, ih]
  | case4 e rest he ih => rw [outline_cons, outline_cons, ih]

/-- The outline of a document can be read off its text, with no place in it. -/
theorem outline_parse (text : String) :
    outline (Document.parse text).entries = textOutline text.toList :=
  outline_attachComments _

/-! ## Places do not matter -/

/-- What comes next in a text does not depend on where the text begins. -/
theorem nextEntry_place (start start' : Nat) (s : List Char) :
    (nextEntry start s).1.outline? = (nextEntry start' s).1.outline? ∧
      (nextEntry start s).2 = (nextEntry start' s).2 := by
  unfold nextEntry
  cases Read.entryLine s with
  | ok r => simp
  | error e => exact ⟨rfl, rfl⟩

/-- The outline is that of the text behind the blank lines, wherever it stands. -/
theorem outline_separateEntries (offset offset' : Nat) {s s' : List Char}
    (h : (skipBlankLines s).2 = (skipBlankLines s').2) :
    outline (separateEntries offset s) = outline (separateEntries offset' s') := by
  induction hn : s.length using Nat.strongRecOn generalizing s s' offset offset' with
  | ind n ih =>
    subst hn
    cases hs : (skipBlankLines s).2 with
    | nil => rw [separateEntries_of_nil hs, separateEntries_of_nil (h ▸ hs)]
    | cons c t =>
      have hs' : (skipBlankLines s').2 = c :: t := h ▸ hs
      rw [separateEntries_of_cons hs rfl, separateEntries_of_cons hs' rfl]
      obtain ⟨hentry, hrest⟩ := nextEntry_place (offset + byteLength (consumed s (c :: t)))
        (offset' + byteLength (consumed s' (c :: t))) (c :: t)
      have hshorter := nextEntry_shorter (offset + byteLength (consumed s (c :: t))) c t
      have hle := (skipBlankLines_suffix s).length_le
      rw [hs, List.length_cons] at hle
      rw [outline_cons, outline_cons, hentry]
      congr 1
      refine ih _ ?_ _ _ (by rw [hrest]) rfl
      omega

/-- So the places can be left out of the recursion altogether. -/
theorem outline_eq_textOutline (offset : Nat) (s : List Char) :
    outline (separateEntries offset s) = textOutline s :=
  outline_separateEntries offset 0 rfl

/-! ## One text below another -/

/-- Blank lines above the first entry make no difference. -/
theorem textOutline_skipBlankLines {s t : List Char}
    (h : (skipBlankLines s).2 = (skipBlankLines t).2) : textOutline s = textOutline t :=
  outline_separateEntries 0 0 h

/-- The outline of a text with something below it, where the text alone may or may not end its last
line. -/
theorem textOutline_append {b c : List Char} (hb : IsBelow b) (hc : c = [] ∨ c = ['\n'])
    (s : List Char) : textOutline (s ++ b) = textOutline (s ++ c) ++ textOutline b := by
  have hc' : IsBelow c := by
    rcases hc with rfl | rfl
    · exact .nil
    · exact .cons 0 .nothing (by simp)
  have hnil : (skipBlankLines c).2 = [] := by
    rcases hc with rfl | rfl
    · rw [skipBlankLines_of_nil rfl]
    · rw [skipBlankLines_of_lineEnd (t := []) rfl, skipBlankLines_of_nil rfl]
  have htail : c.tail = [] := by
    rcases hc with rfl | rfl <;> rfl
  have hempty : textOutline [] = [] := by
    rw [textOutline, separateEntries_of_nil (by rw [skipBlankLines_of_nil rfl])]
    rfl
  -- on the length, entry by entry: what is left behind one is shorter
  induction h : s.length using Nat.strongRecOn generalizing s with
  | ind m ih =>
    subst h
    rcases separateEntries_cases 0 s with h | ⟨gap, d, w, rfl, h⟩
    · rw [textOutline_skipBlankLines (h b hb.isTail), textOutline, textOutline,
        separateEntries_of_nil ((h c hc'.isTail).trans hnil)]
      rfl
    · rw [textOutline, textOutline, h b hb.isTail, h c hc'.isTail, outline_cons, outline_cons,
        outline_eq_textOutline, outline_eq_textOutline, List.append_assoc]
      have hagree := nextEntry_agree hb hc (0 + byteLength gap) d w
      generalize nextEntry (0 + byteLength gap) (d :: (w ++ b)) = x at *
      generalize nextEntry (0 + byteLength gap) (d :: (w ++ c)) = y at *
      cases hagree with
      | @within e e' u he hu =>
        have hu' : u.length < (gap ++ d :: w).length := by
          rw [List.length_append]
          omega
        rw [ih u.length hu' u rfl, ← e.outline?_unannotated, he, e'.outline?_unannotated]
      | line e he =>
        rw [htail, hempty, List.nil_append, textOutline_skipBlankLines hb.skipBlankLines_tail]
      | @junk e e' he he' =>
        rw [← e.outline?_unannotated, ← e'.outline?_unannotated, he, he', hb.afterJunk_eq,
          hc'.afterJunk_eq, hnil, hempty, List.nil_append,
          textOutline_skipBlankLines hb.skipBlankLines_skipBlankLines]
        rfl
      | @comment level above whole rest hmark hbelow =>
        rw [htail, hempty, List.nil_append]
        -- the part of the comment that stands in `b` counts for nothing there either
        have hrest : textOutline b.tail = textOutline rest := by
          obtain ⟨u, hu⟩ : ∃ u, b.tail = '#' :: u := by
            cases hb : b.tail with
            | nil =>
              rw [hb] at hmark
              cases hmark
            | cons a u =>
              rw [hb] at hmark
              exact ⟨u, by rw [Option.some.inj hmark]⟩
          have hlines : (skipBlankLines b.tail).2 = '#' :: u := by
            rw [hu, (Opens.comment u).skipBlankLines_eq]
          obtain ⟨below, hnext⟩ := hbelow (0 + byteLength (consumed b.tail ('#' :: u)))
          rw [hu] at hnext
          rw [textOutline, separateEntries_of_cons hlines rfl, hu, hnext, outline_cons,
            outline_eq_textOutline]
          rfl
        rw [← textOutline_skipBlankLines hb.skipBlankLines_tail, hrest]
        rfl

end FluentMerge
