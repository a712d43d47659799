import FluentMerge.Catalog.Parser
import FluentMerge.Merge.Basic
import FluentMerge.Document.Parser
import FluentMerge.Proofs.Catalog.FirstFault
import FluentMerge.Proofs.Text.LineEnds
import FluentMerge.Proofs.Text.Trimming
import Mathlib.Data.List.Forall2

/-!
# Texts with other line ends

A catalog and a document are read alike whatever their lines end with: the same records or the same
fault on the same line, and the same entries in the same places (`merge_of_lineEnds`).

The two go different ways. A document is made to have one kind of line end before it is read, and a
catalog is cut at its `LF`s, where the `CR` before one is white space at the end of a line.
-/

namespace FluentMerge

open Text (WritesCrLf endLinesByCr unifyLineEnds dropByteOrderMark dropByteOrderMark_of_head)

/-! ## Catalogs -/

/-- The lines are those of the other text, with a `CR` behind some of them. -/
theorem Text.WritesCrLf.lines {s t : List Char} (h : WritesCrLf s t) :
    List.Forall₂ (fun l m => m = l ∨ m = l ++ ['\r']) (Text.lines s) (Text.lines t) := by
  induction h with
  | nil => exact .nil
  | @lineEnd s t _ ih => exact .cons (.inr rfl) ih
  | @same s t c _ ih =>
    by_cases hc : c = '\n'
    · subst hc
      exact .cons (.inl rfl) ih
    · simp only [Text.lines, if_neg hc]
      revert ih
      generalize Text.lines s = ls
      generalize Text.lines t = ms
      intro ih
      cases ih with
      | nil => exact .cons (.inl rfl) .nil
      | @cons l m ls ms hl hls =>
        refine .cons ?_ hls
        obtain rfl | rfl := hl
        · exact .inl rfl
        · exact .inr rfl

/-- A `CR` at the end of a line is white space. -/
theorem Text.WritesCrLf.map_trim {s t : List Char} (h : WritesCrLf s t) :
    (Text.lines t).map Text.trim = (Text.lines s).map Text.trim := by
  rw [← List.forall₂_eq_eq_eq, List.forall₂_map_left_iff, List.forall₂_map_right_iff]
  refine h.lines.flip.imp ?_
  rintro m l (rfl | rfl)
  · rfl
  · rw [Text.trim_concat_of_isWhite (by decide)]

/-- A catalog is read line by line, and the carriage return at the end of a line is white space. -/
theorem parse_of_writesCrLf {text text' : String} (h : WritesCrLf text.toList text'.toList) :
    Catalog.parse text' = Catalog.parse text := by
  unfold Catalog.parse
  rw [PartialCatalog.readLines_congr (map_ofText_congr h.map_trim)]

/-! ## Documents -/

/-- Whether `t` is the text `s` with some of its line ends written `CR LF` or all of them written
`CR`, and perhaps with a byte order mark before it, where it had none. -/
def WritesLineEnds (s t : List Char) : Prop :=
  ∃ u, (WritesCrLf s u ∨ u = endLinesByCr s) ∧
    (t = u ∨ s.head? ≠ some '\ufeff' ∧ t = '\ufeff' :: u)

section ByteOrderMark

variable {s t : List Char}

theorem not_mem_dropByteOrderMark {c : Char} (h : c ∉ s) : c ∉ dropByteOrderMark s := by
  unfold dropByteOrderMark
  split
  · exact fun hmem => h (.tail _ hmem)
  · exact h

/-- No byte order mark comes in front by writing line ends in another way. -/
theorem Text.WritesCrLf.head?_ne (h : WritesCrLf s t) (hs : s.head? ≠ some '\ufeff') :
    t.head? ≠ some '\ufeff' := by
  cases h with
  | nil => exact hs
  | lineEnd h => exact nofun
  | same c h => exact hs

theorem head?_endLinesByCr_ne (hs : s.head? ≠ some '\ufeff') :
    (endLinesByCr s).head? ≠ some '\ufeff' := by
  cases s with
  | nil => exact hs
  | cons c s =>
    show some (if c = '\n' then '\r' else c) ≠ some '\ufeff'
    split
    · exact nofun
    · exact hs

/-- The mark is dropped from both texts or from none. -/
theorem Text.WritesCrLf.dropByteOrderMark (h : WritesCrLf s t) :
    WritesCrLf (Text.dropByteOrderMark s) (Text.dropByteOrderMark t) := by
  by_cases hs : s.head? = some '\ufeff'
  · cases h with
    | nil => cases hs
    | lineEnd h => cases hs
    | same c h =>
      obtain rfl : c = '\ufeff' := Option.some.inj hs
      exact h
  · rw [dropByteOrderMark_of_head hs, dropByteOrderMark_of_head (h.head?_ne hs)]
    exact h

theorem dropByteOrderMark_endLinesByCr (s : List Char) :
    dropByteOrderMark (endLinesByCr s) = endLinesByCr (dropByteOrderMark s) := by
  by_cases hs : s.head? = some '\ufeff'
  · obtain ⟨s, rfl⟩ := List.head?_eq_some_iff.1 hs
    rfl
  · rw [dropByteOrderMark_of_head (head?_endLinesByCr_ne hs), dropByteOrderMark_of_head hs]

/-- With one kind of line end, and without a mark, the text is the same. -/
theorem WritesLineEnds.unifyLineEnds_eq (h : WritesLineEnds s t) (hs : '\r' ∉ s) :
    unifyLineEnds (dropByteOrderMark t) = dropByteOrderMark s := by
  obtain ⟨u, hu, ht⟩ := h
  have hu' : dropByteOrderMark t = dropByteOrderMark u := by
    obtain rfl | ⟨hhead, rfl⟩ := ht
    · rfl
    · -- the mark that was put before the text is the only one
      have huhead : u.head? ≠ some '\ufeff' := by
        obtain hu | rfl := hu
        · exact hu.head?_ne hhead
        · exact head?_endLinesByCr_ne hhead
      exact (dropByteOrderMark_of_head huhead).symm
  rw [hu']
  obtain hu | rfl := hu
  · exact hu.dropByteOrderMark.unifyLineEnds_eq (not_mem_dropByteOrderMark hs)
  · rw [dropByteOrderMark_endLinesByCr,
      Text.unifyLineEnds_endLinesByCr (not_mem_dropByteOrderMark hs)]

end ByteOrderMark

/-- A document is read from a text in which all line ends are line feeds, however they were written.
-/
theorem ofFileText_of_writesLineEnds {text text' : String} (hcr : '\r' ∉ text.toList)
    (h : WritesLineEnds text.toList text'.toList) :
    Document.ofFileText text' = Document.ofFileText text := by
  unfold Document.ofFileText
  rw [h.unifyLineEnds_eq hcr, Text.unifyLineEnds_eq_self (not_mem_dropByteOrderMark hcr)]

/-! ## Merges -/

/-- A merge of two texts does not depend on what their lines end with, nor on a byte order mark
before the document. Every text has one kind of line end when it is made to, one for each there was,
and nothing is left to be done a second time. -/
theorem merge_of_lineEnds :
    (∀ catalog catalog' document document' : String,
      WritesCrLf catalog.toList catalog'.toList → '\r' ∉ document.toList →
      WritesLineEnds document.toList document'.toList →
        Catalog.parse catalog' = Catalog.parse catalog ∧
        Document.ofFileText document' = Document.ofFileText document ∧
        (Document.ofFileText document').merge <$> Catalog.parse catalog' =
          (Document.ofFileText document).merge <$> Catalog.parse catalog) ∧
    ∀ s : List Char, unifyLineEnds (unifyLineEnds s) = unifyLineEnds s ∧
      '\r' ∉ unifyLineEnds s ∧ (unifyLineEnds s).count '\n' = Text.lineEnds s := by
  constructor
  · intro catalog catalog' document document' hcatalog hcr hdocument
    have hparse := parse_of_writesCrLf hcatalog
    have hread := ofFileText_of_writesLineEnds hcr hdocument
    exact ⟨hparse, hread, by rw [hparse, hread]⟩
  · intro s
    have hnone := Text.not_mem_unifyLineEnds s
    exact ⟨Text.unifyLineEnds_eq_self hnone, hnone, Text.count_unifyLineEnds s⟩

/-- A catalog of one greeting. -/
def lfCatalogText : String := "msgid \"Hi\"\nmsgstr \"Salut\"\n"

/-- The catalog with another end of its first line. -/
def crLfCatalogText : String := "msgid \"Hi\"\r\nmsgstr \"Salut\"\n"

/-- Two greetings with a blank line between them. -/
def lfDocumentText : String := "a = Hi\n\nb = Hi\n"

/-- The greetings with other line ends, and a byte order mark before them. -/
def crDocumentText : String := "\ufeffa = Hi\r\rb = Hi\r"

theorem merge_of_lineEnds_greeting :
    (WritesCrLf lfCatalogText.toList crLfCatalogText.toList ∧ '\r' ∉ lfDocumentText.toList ∧
      WritesLineEnds lfDocumentText.toList crDocumentText.toList) ∧
    Catalog.parse crLfCatalogText = Catalog.parse lfCatalogText ∧
    Document.ofFileText crDocumentText = Document.ofFileText lfDocumentText ∧
    (Document.ofFileText crDocumentText).merge <$> Catalog.parse crLfCatalogText =
      (Document.ofFileText lfDocumentText).merge <$> Catalog.parse lfCatalogText := by
  have hcatalog : WritesCrLf lfCatalogText.toList crLfCatalogText.toList :=
    (WritesCrLf.refl "msgid \"Hi\"".toList).append
      (.lineEnd (.refl "msgstr \"Salut\"\n".toList))
  have hcr : '\r' ∉ lfDocumentText.toList := by decide
  have hdocument : WritesLineEnds lfDocumentText.toList crDocumentText.toList :=
    ⟨"a = Hi\r\rb = Hi\r".toList, .inr (by decide), .inr ⟨by decide, by decide⟩⟩
  exact ⟨⟨hcatalog, hcr, hdocument⟩, merge_of_lineEnds.1 _ _ _ _ hcatalog hcr hdocument⟩

end FluentMerge
