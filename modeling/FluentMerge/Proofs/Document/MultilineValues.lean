import FluentMerge.Proofs.Document.TextLines
import Mathlib.Data.List.DropRight

/-!
# Values of many lines

A value is written as lines of text, each indented as one likes, with blank lines above it: all of
them below the equals sign, or the first one behind it. It is read as one text, in which the lines
keep what they are indented by beyond the least indent of the lines below the equals sign, and blank
lines are left as bare line ends (`parse_multiline`).

Reading cuts such a value into parts, two for a line below. Here the parts are computed from the
lines (`MultilineValue.parts`), and what remains is that they join to the one text.
-/

namespace FluentMerge

open Read
open Text (byteLength)

/-! ## Lines -/

/-- Whether a text can be what is on a line of a value: there is something on it, neither a brace
nor the end of a line, and it does not begin with a space. -/
structure IsLineText (content : List Char) : Prop where
  chars : ∀ c ∈ content, isTextChar c = true
  ne_nil : content ≠ []
  head : content.head? ≠ some ' '

theorem IsLineText.exists_cons {content : List Char} (h : IsLineText content) :
    ∃ c s, content = c :: s ∧ c ≠ ' ' ∧ c ≠ '\n' ∧ c ≠ '}' := by
  obtain ⟨c, s, rfl⟩ := List.exists_cons_of_ne_nil h.ne_nil
  have hc := h.chars c (.head _)
  refine ⟨c, s, rfl, by simpa using h.head, ?_, ?_⟩ <;> rintro rfl <;> cases hc

/-- A line below the equals sign: the blank lines above it by the spaces of each, its indent and
what is on it. -/
structure IndentedLine where
  blanks : List Nat
  indent : Nat
  content : List Char

namespace IndentedLine

/-- The line where it is written, from the end of the line above on. -/
def text (line : IndentedLine) : List Char :=
  '\n' :: (blankLines line.blanks ++ (List.replicate line.indent ' ' ++ line.content))

/-- The line in a value whose lines are `common` spaces too far in, with the line ends above it. -/
def dedented (common : Nat) (line : IndentedLine) : List Char :=
  List.replicate (1 + line.blanks.length) '\n' ++
    (List.replicate (line.indent - common) ' ' ++ line.content)

/-- Whether the line goes on with a value. -/
structure IsWritten (line : IndentedLine) : Prop where
  content : IsLineText line.content
  indent : 0 < line.indent
  mark : ∀ c ∈ line.content.head?, c ∉ ['.', '[', '*']

/-- The parts that the line is read as. -/
def parts (line : IndentedLine) : List PatternPart :=
  [.indent (line.blanks.length + 1) line.indent, .text line.content]

variable {line : IndentedLine}

theorem IsWritten.exists_cons (h : line.IsWritten) :
    ∃ c s, line.content = c :: s ∧ c ≠ ' ' ∧ c ≠ '\n' ∧ c ∉ lineMarks := by
  obtain ⟨c, s, hcontent, hspace, hline, hbrace⟩ := h.content.exists_cons
  refine ⟨c, s, hcontent, hspace, hline, ?_⟩
  intro hmem
  rcases List.mem_cons.1 hmem with rfl | hmem
  · exact hbrace rfl
  · exact h.mark c (by rw [hcontent]; rfl) hmem

end IndentedLine

/-! ## Values -/

/-- A value as it is written: all its lines below the equals sign, or the first one behind it after
this many spaces. -/
inductive MultilineValue where
  | block (first : IndentedLine) (others : List IndentedLine)
  | inline (spaces : Nat) (first : List Char) (others : List IndentedLine)

namespace MultilineValue

/-- The lines below the equals sign. -/
def linesBelow : MultilineValue → List IndentedLine
  | block first others => first :: others
  | inline _ _ others => others

/-- The least indent of the lines below the equals sign. -/
def commonIndent (v : MultilineValue) : Nat := ((v.linesBelow.map (·.indent)).min?).getD 0

/-- The value where it is written, behind the equals sign. -/
def text : MultilineValue → List Char
  | block first others => (first :: others).flatMap IndentedLine.text
  | inline spaces first others =>
    List.replicate spaces ' ' ++ (first ++ others.flatMap IndentedLine.text)

/-- The lines of the value joined, each without the common indent. -/
def joined (v : MultilineValue) : List Char :=
  match v with
  | block first others => List.replicate (first.indent - v.commonIndent) ' ' ++
      (first.content ++ others.flatMap (·.dedented v.commonIndent))
  | inline _ first others => first ++ others.flatMap (·.dedented v.commonIndent)

/-- The value as it is read: no spaces are left behind its last line. -/
def content (v : MultilineValue) : String := String.ofList (v.joined.rdropWhile (· == ' '))

/-- Whether the lines of the value can be read. -/
inductive IsWritten : MultilineValue → Prop
  | block {first : IndentedLine} {others : List IndentedLine} : first.IsWritten →
      (∀ line ∈ others, line.IsWritten) → IsWritten (block first others)
  | inline {spaces : Nat} {first : List Char} {others : List IndentedLine} : IsLineText first →
      (∀ line ∈ others, line.IsWritten) → IsWritten (inline spaces first others)

/-- The parts that the value is read as. -/
def parts : MultilineValue → List PatternPart
  | block first others =>
    .indent 0 first.indent :: .text first.content :: others.flatMap IndentedLine.parts
  | inline _ first others => .text first :: others.flatMap IndentedLine.parts

end MultilineValue

/-! ## Reading the parts -/

namespace Read

variable {content b : List Char} {others : List IndentedLine}

/-- What is on a line and the lines below it are read as their parts. -/
theorem patternParts_lines (h : IsLineText content) (hothers : ∀ line ∈ others, line.IsWritten)
    (hb : IsTail b) :
    outcome (patternParts (content ++ (others.flatMap IndentedLine.text ++ b))) =
      .ok (.text content :: others.flatMap IndentedLine.parts, b) := by
  induction others generalizing content with
  | nil =>
    have htext := patternParts_text h.chars h.ne_nil hb.head_isTextChar
    rw [patternParts_of_tail hb] at htext
    exact htext
  | cons line others ih =>
    rw [List.forall_mem_cons] at hothers
    have hbelow := ih hothers.1.content hothers.2
    obtain ⟨c, s, hcontent, hspace, hline, hmark⟩ := hothers.1.exists_cons
    have hstart := patternParts_lineStart (s ++ (others.flatMap IndentedLine.text ++ b)) hspace
      hline hmark line.blanks hothers.1.indent
    have htext : (line :: others).flatMap IndentedLine.text ++ b =
        '\n' :: (blankLines line.blanks ++ (List.replicate line.indent ' ' ++
          (line.content ++ (others.flatMap IndentedLine.text ++ b)))) := by
      simp [IndentedLine.text]
    rw [patternParts_text h.chars h.ne_nil (by rw [htext]; simp [isTextChar]), htext]
    rw [hcontent] at hbelow ⊢
    rw [List.cons_append, hstart, ← List.cons_append, hbelow]
    simp [IndentedLine.parts, hcontent]

end Read

namespace MultilineValue

variable {v : MultilineValue}

/-- The value is read as its parts, up to the tail behind it. -/
theorem IsWritten.reads (h : v.IsWritten) {b : List Char} (hb : IsTail b) :
    outcome (pattern? (v.text ++ b)) = .ok (some (.ofParts v.parts), b) := by
  cases h with
  | @inline spaces first others hfirst hothers =>
    have hparts := patternParts_lines hfirst hothers hb
    obtain ⟨c, s, rfl, hspace, hline, -⟩ := hfirst.exists_cons
    have htext : (MultilineValue.inline spaces (c :: s) others).text ++ b =
        List.replicate spaces ' ' ++ c :: (s ++ (others.flatMap IndentedLine.text ++ b)) := by
      simp [text]
    rw [htext, outcome_pattern?, skipSpaces_indented _ hspace, if_pos (by simp [hline]),
      ← List.cons_append, hparts]
    rfl
  | @block first others hfirst hothers =>
    -- the line behind the equals sign is empty, and the value begins below
    have hparts := patternParts_lines hfirst.content hothers hb
    obtain ⟨c, s, hcontent, hspace, hline, hmark⟩ := hfirst.exists_cons
    rw [hcontent, List.cons_append] at hparts
    let below := List.replicate first.indent ' ' ++
      c :: (s ++ (others.flatMap IndentedLine.text ++ b))
    have htext : (MultilineValue.block first others).text ++ b =
        '\n' :: (blankLines first.blanks ++ below) := by
      simp [text, IndentedLine.text, hcontent, below]
    have hlines : (skipBlankLines (skipSpaces ('\n' :: (blankLines first.blanks ++ below)))).2 =
        below := by
      rw [skipBlankLines_of_lineEnd rfl, skipBlankLines_indented _ hspace hline]
    have hcontinues : continuesValue below = true :=
      continuesValue_indented _ hspace hline hmark hfirst.indent
    rw [htext, outcome_pattern?, if_neg (by simp [skipSpaces]), hlines, if_pos hcontinues]
    dsimp only
    rw [leadingSpaces_indented _ hspace, skipSpaces_indented _ hspace, hparts, parts, hcontent]
    rfl

/-! ## Joining the parts -/

end MultilineValue

/-- The text that a part stands for, if it is no placeable. -/
def PatternPart.chars (common : Nat) : PatternPart → List Char
  | .text value => value
  | .placeable _ => []
  | .indent lineEnds spaces =>
    List.replicate lineEnds '\n' ++ List.replicate (spaces - common) ' '

/-- Parts without placeables join to one text, if there is something in it. -/
theorem foldr_joinBefore {parts : List PatternPart} (h : ∀ source, .placeable source ∉ parts)
    (common : Nat) : (parts.map (PatternPart.element common)).foldr Pattern.joinBefore [] =
      if parts.flatMap (PatternPart.chars common) = [] then []
      else [.text (String.ofList (parts.flatMap (PatternPart.chars common)))] := by
  induction parts with
  | nil => rfl
  | cons part parts ih =>
    have helement : part.element common = .text (String.ofList (part.chars common)) := by
      cases part with
      | placeable source => exact absurd (.head _) (h source)
      | text value => rfl
      | indent lineEnds spaces => rfl
    rw [List.map_cons, List.foldr_cons, helement, List.flatMap_cons,
      ih fun source hmem => h source (.tail _ hmem)]
    by_cases hrest : parts.flatMap (PatternPart.chars common) = []
    · simp [hrest, Pattern.joinBefore]
    · simp [hrest, Pattern.joinBefore]

/-- Blanks at the end of a text are spaces if no line ends there. -/
theorem dropTrailingBlank_of_line (above : List Char) {line : List Char} {c : Char}
    (hspace : c ≠ ' ') (hend : c ≠ '\n') (hline : '\n' ∉ line) :
    Pattern.dropTrailingBlank (String.ofList (above ++ c :: line)) =
      String.ofList ((above ++ c :: line).rdropWhile (· == ' ')) := by
  have hdrop (l : List Char) (hl : '\n' ∉ l) :
      (l ++ c :: above.reverse).dropWhile (fun c => c == ' ' || c == '\n') =
        (l ++ c :: above.reverse).dropWhile (· == ' ') := by
    induction l with
    | nil => simp [hspace, hend]
    | cons d l ih =>
      obtain ⟨hd, hl⟩ : '\n' ≠ d ∧ '\n' ∉ l := by simpa using hl
      by_cases hspace' : d = ' '
      · simpa [hspace'] using ih hl
      · simp [hspace', Ne.symm hd]
  have hreverse : (above ++ c :: line).reverse = line.reverse ++ c :: above.reverse := by simp
  rw [Pattern.dropTrailingBlank, String.toList_ofList, List.rdropWhile, hreverse,
    hdrop _ (by simpa using hline)]

namespace MultilineValue

variable {v : MultilineValue}

theorem not_mem_parts (v : MultilineValue) (source : List Char) : .placeable source ∉ v.parts := by
  cases v <;> simp [parts, IndentedLine.parts]

theorem commonIndent_parts (v : MultilineValue) :
    PatternPart.commonIndent v.parts = v.commonIndent := by
  have hothers (others : List IndentedLine) :
      (others.flatMap IndentedLine.parts).filterMap PatternPart.spaces? =
        others.map (·.indent) := by
    induction others with
    | nil => rfl
    | cons line others ih => exact congrArg (line.indent :: ·) ih
  have hparts : v.parts.filterMap PatternPart.spaces? = v.linesBelow.map (·.indent) := by
    cases v with
    | inline spaces first others => exact hothers others
    | block first others => exact congrArg (first.indent :: ·) (hothers others)
  rw [PatternPart.commonIndent, hparts, commonIndent]

theorem chars_parts (v : MultilineValue) :
    v.parts.flatMap (PatternPart.chars v.commonIndent) = v.joined := by
  have hothers (common : Nat) (others : List IndentedLine) :
      (others.flatMap IndentedLine.parts).flatMap (PatternPart.chars common) =
        others.flatMap (·.dedented common) := by
    induction others with
    | nil => rfl
    | cons line others ih =>
      rw [List.flatMap_cons, List.flatMap_append, ih, List.flatMap_cons]
      simp [IndentedLine.parts, IndentedLine.dedented, PatternPart.chars, Nat.add_comm]
  cases v with
  | inline spaces first others => simp [parts, joined, PatternPart.chars, hothers]
  | block first others => simp [parts, joined, PatternPart.chars, hothers]

/-- The value ends with what is on its last line. -/
theorem IsWritten.joined_eq (h : v.IsWritten) :
    ∃ above content, v.joined = above ++ content ∧ IsLineText content := by
  -- the last line has something on it, whether or not it is the first
  have hothers (first : List Char) (others : List IndentedLine) (hfirst : IsLineText first)
      (h : ∀ line ∈ others, line.IsWritten) :
      ∃ above content, first ++ others.flatMap (·.dedented v.commonIndent) = above ++ content ∧
        IsLineText content := by
    rcases List.eq_nil_or_concat others with rfl | ⟨others, last, rfl⟩
    · exact ⟨[], first, by simp, hfirst⟩
    · refine ⟨first ++ (others.flatMap (·.dedented v.commonIndent) ++
        (List.replicate (1 + last.blanks.length) '\n' ++
          List.replicate (last.indent - v.commonIndent) ' ')), last.content, ?_, ?_⟩
      · simp [IndentedLine.dedented]
      · exact (h last (by simp)).content
  cases h with
  | inline hfirst h => exact hothers _ _ hfirst h
  | @block first others hfirst h =>
    obtain ⟨above, content, heq, hcontent⟩ := hothers _ _ hfirst.content h
    refine ⟨List.replicate (first.indent - commonIndent (.block first others)) ' ' ++ above,
      content, ?_, hcontent⟩
    rw [joined, heq, List.append_assoc]

/-- The parts of the value make up its content. -/
theorem IsWritten.ofParts_parts (h : v.IsWritten) :
    Pattern.ofParts v.parts = ⟨[.text v.content]⟩ := by
  obtain ⟨above, line, hjoined, hline⟩ := h.joined_eq
  obtain ⟨c, s, rfl, hspace, hend, -⟩ := hline.exists_cons
  have hs : '\n' ∉ s := fun hmem => absurd (hline.chars _ (.tail _ hmem)) (by decide)
  have htrim := dropTrailingBlank_of_line above hspace hend hs
  rw [← hjoined] at htrim
  have hne : v.joined.rdropWhile (· == ' ') ≠ [] := by
    rw [hjoined]
    intro hnil
    rw [List.rdropWhile_eq_nil_iff] at hnil
    exact hspace (by simpa using hnil c (by simp))
  rw [Pattern.ofParts, commonIndent_parts, foldr_joinBefore v.not_mem_parts, chars_parts,
    if_neg (by simp [hjoined]), Pattern.dropLastBlank, htrim,
    if_neg (mt String.ofList_eq_empty_iff.1 hne), content]

end MultilineValue

/-! ## The document of a value -/

theorem isTail_of_isBlank {b : List Char} (hb : IsBlank b) (hhead : ∀ c ∈ b.head?, c = '\n') :
    IsTail b := by
  cases b with
  | nil => exact .nil
  | cons c t =>
    obtain rfl := hhead c rfl
    have ht : IsBlank t := (isBlank_cons.1 hb).2
    refine .cons ?_ ?_
    · have hblank := skipBlank_of_isBlank ht []
      rw [List.append_nil] at hblank
      rw [hblank]
      exact .nothing
    · rw [skipBlankLines_eq_nil ht]
      rfl

/-- A message with the value. -/
def MultilineValue.messageText (v : MultilineValue) (id : String) : List Char :=
  id.toList ++ (" =".toList ++ v.text)

/-- A message with a value of many lines, and blank text below it, is read as this one message,
whose value is one text: the lines without their common indent. -/
theorem parse_multiline {id : String} (hid : IsName id) {v : MultilineValue} (hv : v.IsWritten)
    {below : List Char} (hbelow : IsBlank below) (hhead : ∀ c ∈ below.head?, c = '\n') :
    (Document.parse (String.ofList (v.messageText id ++ below))).entries =
      [.message ⟨id, some ⟨[.text v.content]⟩, [], none,
        some ⟨0, byteLength (v.messageText id)⟩⟩] := by
  have hvalue := hv.reads (isTail_of_isBlank hbelow hhead)
  -- below the value all is blank, so there is no attribute
  have hpoint : (skipBlank below).head? ≠ some '.' := by
    have hblank := skipBlank_of_isBlank hbelow []
    rw [List.append_nil] at hblank
    rw [hblank]
    simp [skipBlank]
  have hentry := entry_of_pattern? hid hvalue hpoint
  have htext : v.messageText id ++ below = id.toList ++ (" =".toList ++ (v.text ++ below)) := by
    simp [MultilineValue.messageText]
  rw [← htext, hv.ofParts_parts] at hentry
  -- the message is the first entry, and the text begins with it
  have hnext := nextEntry_of_entry hentry hhead 0
  rw [consumed_eq rfl, Nat.zero_add] at hnext
  obtain ⟨c, name, hname, hc, -⟩ := hid
  have hcons : v.messageText id ++ below = c :: (name ++ (" =".toList ++ (v.text ++ below))) := by
    rw [htext, hname, List.cons_append]
  rw [hcons] at hnext ⊢
  refine parse_of_nextEntry hc hnext ?_ (by rintro level ⟨⟩)
  exact skipBlankLines_eq_nil fun c hc => hbelow c (List.mem_of_mem_tail hc)

/-- Two lines, of which the first is further in, with blank lines above both. -/
def verse : MultilineValue :=
  .block ⟨[0], 4, "To be".toList⟩ [⟨[3, 0], 2, "or not  ".toList⟩]

theorem parse_multiline_verse : verse.IsWritten ∧
    (Document.parse "verse =\n\n    To be\n   \n\n  or not  \n").entries =
      [.message ⟨"verse", some ⟨[.text "  To be\n\n\nor not"]⟩, [], none, some ⟨0, 34⟩⟩] := by
  have hname : IsName "verse" := by decide
  have hwritten : verse.IsWritten := by
    have hfirst : IsLineText "To be".toList := ⟨List.all_eq_true.1 rfl, by decide, by decide⟩
    have hlast : IsLineText "or not  ".toList := ⟨List.all_eq_true.1 rfl, by decide, by decide⟩
    refine .block ⟨hfirst, by decide, by simp⟩ ?_
    intro line hline
    obtain rfl := List.mem_singleton.1 hline
    exact ⟨hlast, by decide, by simp⟩
  have hcontent : verse.content = "  To be\n\n\nor not" := by decide
  have hparse := @parse_multiline _ hname _ hwritten ['\n'] (by simp [IsBlank]) (by simp)
  rw [hcontent] at hparse
  exact ⟨hwritten, hparse⟩

end FluentMerge
