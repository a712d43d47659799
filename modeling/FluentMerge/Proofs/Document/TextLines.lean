import FluentMerge.Proofs.Document.Composition
import FluentMerge.Proofs.Document.Names
import FluentMerge.Proofs.Text.Trimming
import Mathlib.Data.List.Basic

/-!
# Values of text

A line of text is read as one part of a pattern (`patternParts_text`), and an indented line below it
as the part that begins the line and what is on it (`patternParts_lineStart`). So a value of one or
two lines is read as one text, up to the tail behind it (`pattern?_line`, `pattern?_lines`).
-/

namespace FluentMerge

open Read
open Text (takeWhile_of_head dropWhile_of_head)

/-! ## Lines -/

/-- Whether a text can stand on a line of a value and be read as it stands: there is something on
it, neither a brace nor the end of a line, and no space at its ends. -/
structure IsTextLine (line : List Char) : Prop where
  chars : ∀ c ∈ line, isTextChar c = true
  ne_nil : line ≠ []
  head : line.head? ≠ some ' '
  last : line.getLast? ≠ some ' '

namespace IsTextLine

variable {line : List Char}

theorem exists_cons (h : IsTextLine line) : ∃ c s, line = c :: s ∧ c ≠ ' ' ∧ c ≠ '\n' := by
  obtain ⟨c, s, rfl⟩ := List.exists_cons_of_ne_nil h.ne_nil
  refine ⟨c, s, rfl, by simpa using h.head, ?_⟩
  rintro rfl
  exact absurd (h.chars '\n' (.head _)) (by decide)

theorem skipSpaces_eq (h : IsTextLine line) (s : List Char) :
    skipSpaces (line ++ s) = line ++ s := by
  obtain ⟨c, t, rfl, hspace, -⟩ := h.exists_cons
  simp [skipSpaces, hspace]

theorem last_ne (h : IsTextLine line) : ∀ c ∈ line.getLast?, c ≠ ' ' ∧ c ≠ '\n' := by
  intro c hc
  refine ⟨?_, ?_⟩
  · rintro rfl
    exact h.last hc
  · rintro rfl
    exact absurd (h.chars '\n' (List.mem_of_getLast? hc)) (by decide)

end IsTextLine

theorem IsTail.head_isTextChar {b : List Char} (hb : IsTail b) :
    ∀ c ∈ b.head?, isTextChar c = false := by
  cases hb with
  | nil => simp
  | cons _ _ => simp [isTextChar]

namespace Read

/-- A line of text is one part of the pattern that it stands in. -/
theorem patternParts_text {line : List Char} (h : ∀ c ∈ line, isTextChar c = true)
    (hne : line ≠ []) {s : List Char} (hs : ∀ c ∈ s.head?, isTextChar c = false) :
    outcome (patternParts (line ++ s)) =
      (fun p => (.text line :: p.1, p.2)) <$> outcome (patternParts s) := by
  obtain ⟨c, t, rfl⟩ := List.exists_cons_of_ne_nil hne
  have hc : c ≠ '\n' ∧ c ≠ '{' ∧ c ≠ '}' := by
    simpa [isTextChar, and_assoc] using h c (.head _)
  have ht : ∀ d ∈ t, isTextChar d = true := fun d hd => h d (.tail _ hd)
  rw [List.cons_append, outcome_patternParts, if_neg hc.1, if_neg hc.2.1, if_neg hc.2.2,
    List.takeWhile_append_of_pos ht, List.dropWhile_append_of_pos ht, takeWhile_of_head hs,
    dropWhile_of_head hs, List.append_nil]

/-! ## Lines below

A line below goes on with a value if it is indented and does not begin with a mark, whatever blank
lines are above it. -/

/-- The characters that a line below does not go on with a value with, though it is indented. -/
def lineMarks : List Char := ['}', '.', '[', '*']

/-- Blank lines, of which each has this many spaces. -/
def blankLines (blanks : List Nat) : List Char :=
  blanks.flatMap fun n => List.replicate n ' ' ++ ['\n']

section LinesBelow

variable {c : Char} (s : List Char)

theorem skipSpaces_indented (hspace : c ≠ ' ') (n : Nat) :
    skipSpaces (List.replicate n ' ' ++ c :: s) = c :: s := by
  have hall : ∀ c ∈ List.replicate n ' ', (c == ' ') = true := by simp
  rw [skipSpaces, List.dropWhile_append_of_pos hall]
  exact List.dropWhile_cons_of_neg (by simpa using hspace)

theorem leadingSpaces_indented (hspace : c ≠ ' ') (n : Nat) :
    leadingSpaces (List.replicate n ' ' ++ c :: s) = n := by
  have hall : ∀ c ∈ List.replicate n ' ', (c == ' ') = true := by simp
  rw [leadingSpaces, List.takeWhile_append_of_pos hall]
  simp [hspace]

theorem skipBlankLines_indented (hspace : c ≠ ' ') (hline : c ≠ '\n') (blanks : List Nat)
    (n : Nat) : skipBlankLines (blankLines blanks ++ (List.replicate n ' ' ++ c :: s)) =
      (blanks.length, List.replicate n ' ' ++ c :: s) := by
  induction blanks with
  | nil => exact skipBlankLines_of_ne (skipSpaces_indented s hspace n) hline
  | cons k blanks ih =>
    have hblank : skipSpaces (blankLines (k :: blanks) ++ (List.replicate n ' ' ++ c :: s)) =
        '\n' :: (blankLines blanks ++ (List.replicate n ' ' ++ c :: s)) := by
      rw [blankLines, List.flatMap_cons, List.append_assoc, List.append_assoc]
      exact skipSpaces_indented _ (by decide) k
    rw [skipBlankLines_of_lineEnd hblank, ih, List.length_cons]

theorem continuesValue_indented (hspace : c ≠ ' ') (hline : c ≠ '\n') (hmark : c ∉ lineMarks)
    {n : Nat} (hn : 0 < n) : continuesValue (List.replicate n ' ' ++ c :: s) = true := by
  obtain ⟨k, rfl⟩ := Nat.exists_eq_add_one.2 hn
  simp only [lineMarks, List.mem_cons, List.not_mem_nil, or_false, not_or] at hmark
  rw [continuesValue, skipSpaces_indented s hspace]
  simp [List.replicate_succ, hline, hmark]

/-- An indented line below is read as the part that begins it, and then as what is on it. -/
theorem patternParts_lineStart (hspace : c ≠ ' ') (hline : c ≠ '\n') (hmark : c ∉ lineMarks)
    (blanks : List Nat) {n : Nat} (hn : 0 < n) :
    outcome (patternParts ('\n' :: (blankLines blanks ++ (List.replicate n ' ' ++ c :: s)))) =
      (fun p => (.indent (blanks.length + 1) n :: p.1, p.2)) <$> outcome (patternParts (c :: s)) := by
  rw [outcome_patternParts, if_pos rfl, skipBlankLines_indented s hspace hline,
    if_pos (continuesValue_indented s hspace hline hmark hn)]
  dsimp only
  rw [leadingSpaces_indented s hspace, skipSpaces_indented s hspace]

end LinesBelow

end Read

/-! ## Values -/

theorem dropTrailingBlank_eq_self {v : String} (h : ∀ c ∈ v.toList.getLast?, c ≠ ' ' ∧ c ≠ '\n') :
    Pattern.dropTrailingBlank v = v := by
  have hdrop : v.toList.reverse.dropWhile (fun c => c == ' ' || c == '\n') = v.toList.reverse := by
    cases hlast : v.toList.reverse with
    | nil => rfl
    | cons c s =>
      obtain ⟨hspace, hline⟩ := h c (by rw [← List.head?_reverse, hlast]; rfl)
      simp [hspace, hline]
  rw [Pattern.dropTrailingBlank, hdrop, List.reverse_reverse, String.ofList_toList]

namespace IsTextLine

variable {line : List Char}

theorem ofList_ne (h : IsTextLine line) : String.ofList line ≠ "" :=
  mt String.ofList_eq_empty_iff.1 h.ne_nil

/-- Text that ends with a line of text is an element as it stands. -/
theorem dropLastBlank_eq (h : IsTextLine line) (above : String) :
    Pattern.dropLastBlank [.text (above ++ String.ofList line)] =
      [.text (above ++ String.ofList line)] := by
  have hlast : ∀ c ∈ (above ++ String.ofList line).toList.getLast?, c ≠ ' ' ∧ c ≠ '\n' := by
    rw [String.toList_append, String.toList_ofList, List.getLast?_append_of_ne_nil _ h.ne_nil]
    exact h.last_ne
  have hne : above ++ String.ofList line ≠ "" := by simp [h.ofList_ne]
  rw [Pattern.dropLastBlank, dropTrailingBlank_eq_self hlast, if_neg hne]

/-- The value of one line. -/
theorem ofParts_line (h : IsTextLine line) :
    Pattern.ofParts [.text line] = ⟨[.text (String.ofList line)]⟩ := by
  have hlast := h.dropLastBlank_eq ""
  rw [String.empty_append] at hlast
  simp [Pattern.ofParts, PatternPart.element, Pattern.joinBefore, h.ofList_ne, hlast]

/-- The value of two lines: the second one loses its indent, which no other line has. -/
theorem ofParts_lines {first : List Char} (h : IsTextLine line) (n : Nat) :
    Pattern.ofParts [.text first, .indent 1 n, .text line] =
      ⟨[.text (String.ofList (first ++ '\n' :: line))]⟩ := by
  have hcommon : PatternPart.commonIndent [.text first, .indent 1 n, .text line] = n := rfl
  have hindent : PatternPart.element n (.indent 1 n) = .text "\n" := by
    simp [PatternPart.element]
  have htext : String.ofList (first ++ '\n' :: line) =
      String.ofList first ++ "\n" ++ String.ofList line := by
    apply String.toList_inj.1
    simp
  have hjoin : [PatternPart.element n (.text first), .text "\n",
      PatternPart.element n (.text line)].foldr Pattern.joinBefore [] =
        [.text (String.ofList first ++ "\n" ++ String.ofList line)] := by
    simp [PatternPart.element, Pattern.joinBefore, h.ofList_ne, String.append_assoc]
  rw [Pattern.ofParts, hcommon, htext, List.map_cons, List.map_cons, List.map_singleton, hindent,
    hjoin, h.dropLastBlank_eq]

end IsTextLine

namespace Read

variable {first second b : List Char}

/-- A value that begins with a line of text is made of the parts from there on. -/
theorem pattern?_text (h : IsTextLine first) (s : List Char) :
    outcome (pattern? (first ++ s)) =
      (fun p => (some (.ofParts p.1), p.2)) <$> outcome (patternParts (first ++ s)) := by
  have hspaces := h.skipSpaces_eq s
  obtain ⟨c, t, rfl, -, hline⟩ := h.exists_cons
  rw [outcome_pattern?, hspaces, if_pos (by simp [hline])]

/-- A line of text with a tail behind it is read as the one text that it is. -/
theorem pattern?_line (h : IsTextLine first) (hb : IsTail b) :
    outcome (pattern? (first ++ b)) = .ok (some ⟨[.text (String.ofList first)]⟩, b) := by
  rw [pattern?_text h, patternParts_text h.chars h.ne_nil hb.head_isTextChar,
    patternParts_of_tail hb, ← h.ofParts_line]
  rfl

/-- Two lines of text, the second indented, are read as one text, without the indent. -/
theorem pattern?_lines (h : IsTextLine first) {n : Nat} (hn : 0 < n) (h' : IsTextLine second)
    (hmark : ∀ c ∈ second.head?, c ∉ lineMarks) (hb : IsTail b) :
    outcome (pattern? (first ++ '\n' :: (List.replicate n ' ' ++ (second ++ b)))) =
      .ok (some ⟨[.text (String.ofList (first ++ '\n' :: second))]⟩, b) := by
  have hbelow : outcome (patternParts ('\n' :: (List.replicate n ' ' ++ (second ++ b)))) =
      .ok ([.indent 1 n, .text second], b) := by
    have htext := patternParts_text h'.chars h'.ne_nil hb.head_isTextChar
    rw [patternParts_of_tail hb] at htext
    obtain ⟨c, t, rfl, hspace, hline⟩ := h'.exists_cons
    have hstart := patternParts_lineStart (t ++ b) hspace hline (hmark c rfl) [] hn
    exact hstart.trans (congrArg _ htext)
  rw [pattern?_text h, patternParts_text h.chars h.ne_nil (by simp [isTextChar]), hbelow,
    ← h'.ofParts_lines n]
  rfl

/-! ## Messages -/

/-- A name, an equals sign and a value are read in turn. -/
theorem definition_of_pattern? {id : String} (hid : IsName id) {s rest : List Char}
    {v : Option Pattern} (h : outcome (pattern? s) = .ok (v, rest)) :
    outcome (definition (id.toList ++ (" =".toList ++ s))) = .ok ((id, v), rest) := by
  obtain ⟨c, name, hname, hc, hrest⟩ := hid
  have hidentifier := @identifier_of_name c name [' '] s hc hrest (by simp)
  rw [← hname, String.ofList_toList] at hidentifier
  have htext : id.toList ++ (" =".toList ++ s) = c :: (name ++ ([' '] ++ '=' :: s)) := by
    rw [hname]
    rfl
  have hmark : outcome (expect '=' (skipSpaces ([' '] ++ '=' :: s))) = .ok ((), s) := rfl
  rw [htext, outcome_definition, hidentifier]
  simp only [bind, Except.bind, hmark, h]
  rfl

/-- A name with a value and no attribute behind it is read as a message. -/
theorem entry_of_pattern? {id : String} (hid : IsName id) {s rest : List Char} {p : Pattern}
    (h : outcome (pattern? s) = .ok (some p, rest)) (hrest : (skipBlank rest).head? ≠ some '.') :
    outcome (entry (id.toList ++ (" =".toList ++ s))) =
      .ok (.message ⟨id, some p, [], none, none⟩, rest) := by
  have hdefinition := definition_of_pattern? hid h
  -- no point stands below
  have hattributes : outcome (attributes rest) = .ok ([], rest) := by
    rw [outcome_attributes]
    split
    · next t ht => exact absurd (congrArg List.head? ht) hrest
    · rfl
  have hmessage : outcome (message (id.toList ++ (" =".toList ++ s))) =
      .ok (⟨id, some p, [], none, none⟩, rest) := by
    rw [outcome_message, hdefinition]
    simp only [bind, Except.bind, hattributes]
    rfl
  obtain ⟨c, name, hname, hc, -⟩ := hid
  have hmarks : c ≠ '#' ∧ c ≠ '-' := ⟨ne_of_isAlpha hc (by decide), ne_of_isAlpha hc (by decide)⟩
  rw [hname, List.cons_append] at hmessage ⊢
  rw [outcome_entry, if_neg hmarks.1, if_neg hmarks.2, if_pos hc, hmessage]
  rfl

end Read

end FluentMerge
