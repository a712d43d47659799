import FluentMerge.Merge.Separator
import FluentMerge.Proofs.Document.Layout

/-!
# Blank lines and separators

A separator has a line end for each byte between two neighbouring entries of a text. What stands
there is blank: line ends, and the spaces of blank lines. So the line ends of the text come out
again exactly if its blank lines are empty (`keepsLineEnds_iff`). A blank line of spaces comes out
as a line end for each space too (`not_keepsLineEnds`).
-/

namespace FluentMerge

open Text (byteLength)

/-- The text `between` stands in `s` between the entries `e` and `f`. -/
def Entry.Between (e f : Entry) (s between : List Char) : Prop :=
  ∃ a b before after, e.span = some a ∧ f.span = some b ∧ s = before ++ between ++ after ∧
    a.stop = byteLength before ∧ b.start = byteLength (before ++ between)

/-- Blank text is nothing but line ends exactly if there is no space in it. -/
theorem IsBlank.count_eq_length_iff {s : List Char} (h : IsBlank s) :
    s.count '\n' = s.length ↔ ' ' ∉ s := by
  rw [List.count_eq_length]
  constructor
  · intro hall hspace
    exact absurd (hall ' ' hspace) (by decide)
  · intro hspace c hc
    rcases h c hc with rfl | rfl
    · exact absurd hc hspace
    · rfl

/-- Between two neighbours stands blank text. -/
theorem Laid.between {before s : List Char} {es : List Entry} (h : Laid before es s) :
    ∀ e f, [e, f] <:+: es → ∃ between, IsBlank between ∧ e.Between f (before ++ s) between := by
  induction h with
  | nil => simp
  | @cons before gap body after s e es hs _ _ _ _ hspan _ htail ih =>
    intro e' f hinfix
    have htext : before ++ s = before ++ gap ++ body ++ after := by simp [hs]
    rcases List.infix_cons_iff.1 hinfix with hprefix | hinfix
    · obtain ⟨rfl, rest, rfl⟩ := List.cons_prefix_cons.1 hprefix
      cases htail with
      | @cons _ gap' body' after' _ _ _ hs' hgap' _ _ _ hspan' _ _ =>
        exact ⟨gap', hgap', _, _, before ++ gap ++ body, body' ++ after', hspan, hspan',
          by simp [hs, hs'], rfl, rfl⟩
    · rw [htext]
      exact ih e' f hinfix

/-- There is one text between two entries. -/
theorem Entry.Between.unique {e f : Entry} {s between between' : List Char}
    (h : e.Between f s between) (h' : e.Between f s between') : between = between' := by
  obtain ⟨a, b, before, after, ha, hb, hs, hstop, hstart⟩ := h
  obtain ⟨a', b', before', after', ha', hb', hs', hstop', hstart'⟩ := h'
  obtain rfl : a = a' := Option.some.inj (ha.symm.trans ha')
  obtain rfl : b = b' := Option.some.inj (hb.symm.trans hb')
  rw [hs, List.append_assoc, List.append_assoc] at hs'
  obtain ⟨rfl, hrest⟩ := append_inj_of_byteLength hs' (hstop.symm.trans hstop')
  refine (append_inj_of_byteLength hrest ?_).1
  simp only [Text.byteLength_append] at hstart hstart'
  omega

/-- The separator of two neighbours has a line end for each character between them. -/
theorem Entry.Between.toList_separator {e f : Entry} {s between : List Char}
    (h : e.Between f s between) (hblank : IsBlank between) :
    (separator e.span f.span).toList = List.replicate between.length '\n' := by
  obtain ⟨a, b, before, after, ha, hb, -, hstop, hstart⟩ := h
  rw [Text.byteLength_append, hblank.byteLength_eq] at hstart
  have hlength := separatorLength_of_le (b := a) (a := b) (by omega)
  rw [FluentMerge.toList_separator, ha, hb]
  congr 1
  omega

/-- Whether the separator of any two neighbours among the entries of `s` consists of as many line
ends as stand between them. -/
def KeepsLineEnds (s : List Char) (es : List Entry) : Prop :=
  ∀ e f between, [e, f] <:+: es → e.Between f s between →
    (separator e.span f.span).toList = List.replicate (between.count '\n') '\n'

/-- The separators are the line ends of the text exactly if no space stands between two entries. -/
theorem keepsLineEnds_iff (text : String) :
    KeepsLineEnds text.toList (Document.parse text).entries ↔
      ∀ e f between, [e, f] <:+: (Document.parse text).entries →
        e.Between f text.toList between → ' ' ∉ between := by
  refine forall₅_congr fun e f between hinfix hbetween => ?_
  obtain ⟨blank, hblank, hbetween'⟩ := (parse_laid text).between e f hinfix
  rw [List.nil_append] at hbetween'
  obtain rfl := hbetween.unique hbetween'
  rw [hbetween.toList_separator hblank, ← hblank.count_eq_length_iff, List.replicate_inj]
  constructor
  · rintro ⟨hlength, -⟩
    exact hlength.symm
  · intro hcount
    exact ⟨hcount.symm, .inr rfl⟩

/-- A blank line of two spaces makes two line ends too many. -/
theorem not_keepsLineEnds :
    ¬∀ text : String, '\r' ∉ text.toList →
      (∀ e ∈ (Document.parse text).entries, e.kind ≠ .junk) →
        KeepsLineEnds text.toList (Document.parse text).entries := by
  intro h
  let e : Entry := .message ⟨"a", some ⟨[.text "x"]⟩, [], none, some ⟨0, 5⟩⟩
  let f : Entry := .message ⟨"b", some ⟨[.text "y"]⟩, [], none, some ⟨9, 14⟩⟩
  have hentries : (Document.parse "a = x\n  \nb = y").entries = [e, f] := by decide +kernel
  have hkeeps := h "a = x\n  \nb = y" (by decide) (by rw [hentries]; decide)
  rw [hentries] at hkeeps
  have hbetween : e.Between f "a = x\n  \nb = y".toList "\n  \n".toList :=
    ⟨_, _, "a = x".toList, "b = y".toList, rfl, rfl, by decide, by decide, by decide⟩
  exact absurd (hkeeps e f _ List.infix_rfl hbetween) (by decide)

end FluentMerge
