import FluentMerge.Proofs.Document.TextLines
import FluentMerge.Proofs.Merge.MessageText

/-!
# Reading a translated message

A translation is written behind an equals sign as it stands. Here each translation can be read as a
value on its own, with nothing but blank text behind it (`ReadsAs`). Then the text of its message is
read as that message with the values in place (`message_reads`), whatever stands below.
-/

namespace FluentMerge

open Read
open Text (unifyLineEnds unifyLineEnds_append unifyLineEnds_append_lineEnd unifyLineEnds_cons)

/-- Whether a translation is read as the pattern `p` and nothing but blank text is left of it. -/
def ReadsAs (translation : String) (p : Pattern) : Prop :=
  ∃ rest, outcome (pattern? (unifyLineEnds translation.toList)) = .ok (some p, rest) ∧ IsBlank rest

/-- What may stand below a value before line ends are made one kind. -/
structure IsRawTail (below : List Char) : Prop where
  head : ∀ c ∈ below.head?, c = '\n'
  tail : IsTail (unifyLineEnds below)

/-- What is left behind a value with `below` under it: blank text that a line end or nothing begins,
and then what stands below. -/
structure Leaves (below rest : List Char) : Prop where
  head : ∀ c ∈ rest.head?, c = '\n'
  text : ∃ u, IsBlank u ∧ (below = [] ∧ rest = u ∨ rest = u ++ unifyLineEnds below)

theorem Leaves.skipBlank_eq {below rest : List Char} (h : Leaves below rest) :
    skipBlank rest = skipBlank (unifyLineEnds below) := by
  obtain ⟨u, hu, ⟨rfl, rfl⟩ | rfl⟩ := h.text
  · have := skipBlank_of_isBlank hu []
    rwa [List.append_nil] at this
  · exact skipBlank_of_isBlank hu _

/-! ## Values -/

namespace Read

/-- A pattern ends where a line does. -/
theorem patternParts_head {s rest : List Char} {parts : List PatternPart}
    (h : outcome (patternParts s) = .ok (parts, rest)) : ∀ c ∈ rest.head?, c = '\n' := by
  induction hn : s.length using Nat.strongRecOn generalizing s parts with
  | ind n ih =>
    subst hn
    cases s with
    | nil =>
      rw [outcome_patternParts_nil] at h
      cases h
      simp
    | cons c t =>
      rw [outcome_patternParts] at h
      split at h
      · next hc =>
        split at h
        · obtain ⟨⟨others, u⟩, hothers, h⟩ := map_eq_ok_iff.1 h
          cases h
          -- the line below goes on with the value
          have hle := ((skipSpaces_suffix _).trans (skipBlankLines_suffix t)).length_le
          exact ih _ (Nat.lt_succ_of_le hle) hothers rfl
        · cases h
          -- it does not, and the value stops in front of the line end
          simpa using hc
      split at h
      · obtain ⟨⟨⟨⟩, u⟩, hclosed, h⟩ := bind_eq_ok_iff.1 h
        obtain ⟨⟨others, v⟩, hothers, h⟩ := map_eq_ok_iff.1 h
        cases h
        exact ih _ (Nat.lt_succ_of_le (outcome_suffix hclosed).length_le) hothers rfl
      split at h
      · cases h
      · obtain ⟨⟨others, u⟩, hothers, h⟩ := map_eq_ok_iff.1 h
        cases h
        exact ih _ (Nat.lt_succ_of_le (List.dropWhile_suffix _).length_le) hothers rfl

theorem pattern?_head {s rest : List Char} {p : Pattern}
    (h : outcome (pattern? s) = .ok (some p, rest)) : ∀ c ∈ rest.head?, c = '\n' := by
  rw [outcome_pattern?] at h
  split at h
  · obtain ⟨⟨parts, u⟩, hparts, h⟩ := map_eq_ok_iff.1 h
    cases h
    exact patternParts_head hparts
  split at h
  · obtain ⟨⟨parts, u⟩, hparts, h⟩ := map_eq_ok_iff.1 h
    cases h
    exact patternParts_head hparts
  · cases h

/-- A space in front of a value does not matter. -/
theorem pattern?_space {s rest : List Char} {p : Pattern}
    (h : outcome (pattern? s) = .ok (some p, rest)) :
    outcome (pattern? (' ' :: s)) = .ok (some p, rest) := by
  rw [outcome_pattern?] at h ⊢
  have hspaces : skipSpaces (' ' :: s) = skipSpaces s := rfl
  rw [hspaces]
  split
  · next hhead => rwa [if_pos hhead] at h
  · next hhead =>
    rw [if_neg hhead] at h
    split
    · next hcontinues => rwa [if_pos hcontinues] at h
    · next hcontinues =>
      rw [if_neg hcontinues] at h
      cases h

end Read

/-- A translation is read as its pattern with other text below it. -/
theorem ReadsAs.pattern? {translation : String} {p : Pattern} (h : ReadsAs translation p)
    {below : List Char} (hbelow : IsRawTail below) :
    ∃ rest, outcome (Read.pattern? (' ' :: unifyLineEnds (translation.toList ++ below))) =
      .ok (some p, rest) ∧ Leaves below rest := by
  obtain ⟨rest, hread, hrest⟩ := h
  cases below with
  | nil =>
    rw [List.append_nil]
    exact ⟨rest, pattern?_space hread, pattern?_head hread, rest, hrest, .inl ⟨rfl, rfl⟩⟩
  | cons c s =>
    obtain rfl := hbelow.head c rfl
    have htail := hbelow.tail
    rw [unifyLineEnds_cons (by decide)] at htail
    obtain ⟨w, c, hc, hw, hall⟩ := unifyLineEnds_append_lineEnd translation.toList s
    have hc' : IsTail c := by
      rcases hc with rfl | rfl
      · exact .nil
      · exact IsBelow.isTail (.cons 0 .nothing (by simp))
    rw [hw] at hread
    rw [hall]
    -- `w` with its own end was read whole, so with the tail below it is read to the same place
    rcases (pattern?_agree htail hc' w).cases with
      ⟨e, e', -, he'⟩ | ⟨v, _, _, ⟨u, -, rfl, rfl⟩, hv, hv'⟩
    · rw [hread] at he'
      cases he'
    · rw [hread] at hv'
      cases hv'
      refine ⟨_, pattern?_space hv, pattern?_head hv, u, (isBlank_append.1 hrest).1, .inr ?_⟩
      rw [unifyLineEnds_cons (by decide)]

/-- Where there is no translation, no value is read. -/
theorem pattern?_of_tail {b : List Char} (hb : IsTail b) :
    outcome (pattern? (' ' :: b)) = .ok (none, ' ' :: b) := by
  have hspaces : skipSpaces (' ' :: b) = b := by cases hb <;> rfl
  have hhead : b.head?.any (· != '\n') = false := by cases hb <;> rfl
  rw [outcome_pattern?, hspaces, hhead, if_neg (by simp), hb.continuesValue_eq, if_neg (by simp)]

/-- A name, an equals sign and a value are read in turn. -/
theorem definition_reads {id : String} (hid : IsName id) {s rest : List Char} {v : Option Pattern}
    (h : outcome (pattern? (' ' :: s)) = .ok (v, rest)) :
    outcome (definition (id.toList ++ (" = ".toList ++ s))) = .ok ((id, v), rest) := by
  exact definition_of_pattern? hid h

/-! ## Attributes -/

section Attributes

variable {t : Translations} {pattern : String → Pattern} {below : List Char}

/-- An attribute with its translation read. -/
def Attribute.reread (a : Attribute) (t : Translations) (pattern : String → Pattern) : Attribute :=
  ⟨a.id, pattern (t.ofPattern (some a.value))⟩

/-- The text of an attribute with line ends made one kind: its translation is all that changes. -/
theorem unifyLineEnds_attribute {a : Attribute} (ha : IsName a.id) (s : List Char) :
    unifyLineEnds (a.translatedText t ++ s) = ['\n', ' ', ' ', '.'] ++ (a.id.toList ++
      (" = ".toList ++ unifyLineEnds ((t.ofPattern (some a.value)).toList ++ s))) := by
  have htext : a.translatedText t ++ s = ['\n', ' ', ' ', '.'] ++ (a.id.toList ++
      ([' ', '=', ' '] ++ ((t.ofPattern (some a.value)).toList ++ s))) := by
    simp [Attribute.translatedText]
  rw [htext, unifyLineEnds_append (by decide), unifyLineEnds_append ha.not_mem,
    unifyLineEnds_append (by decide)]
  rfl

theorem isRawTail_attributes {as : List Attribute} (hnames : ∀ a ∈ as, IsName a.id)
    (hbelow : IsRawTail below) : IsRawTail (as.flatMap (·.translatedText t) ++ below) := by
  cases as with
  | nil => exact hbelow
  | cons a as =>
    rw [List.flatMap_cons, List.append_assoc]
    refine ⟨?_, ?_⟩
    · simp [Attribute.translatedText]
    · rw [unifyLineEnds_attribute (hnames a (by simp))]
      refine .cons (.point _) ?_
      rw [skipBlankLines_of_ne (c := '.') rfl (by decide)]
      rfl

/-- The attributes of a message are read one after the other, up to what stands below. -/
theorem attributes_read {as : List Attribute} (hnames : ∀ a ∈ as, IsName a.id)
    (hreads : ∀ a ∈ as, ReadsAs (t.ofPattern (some a.value)) (pattern (t.ofPattern (some a.value))))
    (hbelow : IsRawTail below) (hpoint : (skipBlank (unifyLineEnds below)).head? ≠ some '.')
    {s : List Char}
    (hs : skipBlank s = skipBlank (unifyLineEnds (as.flatMap (·.translatedText t) ++ below)))
    (hnil : as = [] → Leaves below s) :
    ∃ rest, outcome (attributes s) = .ok (as.map (·.reread t pattern), rest) ∧
      Leaves below rest := by
  induction as generalizing s with
  | nil =>
    refine ⟨s, ?_, hnil rfl⟩
    rw [outcome_attributes]
    split
    · -- what stands below has no point to go on with
      next u hu => exact absurd (congrArg List.head? (hs.symm.trans hu)) hpoint
    · rfl
  | cons a as ih =>
    have hname := hnames a (by simp)
    have hnames' : ∀ a ∈ as, IsName a.id := fun a ha => hnames a (List.mem_cons_of_mem _ ha)
    rw [List.flatMap_cons, List.append_assoc, unifyLineEnds_attribute hname] at hs
    -- the value of the attribute ends in front of the next one
    obtain ⟨rest, hvalue, hrest⟩ :=
      (hreads a (by simp)).pattern? (isRawTail_attributes (t := t) hnames' hbelow)
    obtain ⟨rest', hothers, hrest'⟩ := ih hnames'
      (fun a ha => hreads a (List.mem_cons_of_mem _ ha)) hrest.skipBlank_eq fun h => by
        subst h
        exact hrest
    refine ⟨rest', ?_, hrest'⟩
    have hfirst := definition_reads hname hvalue
    have hblank (x : List Char) : skipBlank (['\n', ' ', ' ', '.'] ++ x) = '.' :: x := rfl
    rw [outcome_attributes, hs, hblank]
    simp only [hfirst, bind, Except.bind, hothers]
    rfl

end Attributes

/-! ## Messages -/

section Message

variable {m : Message} {t : Translations} {pattern : String → Pattern} {below : List Char}

/-- Each translation that a message is written with is read as its pattern. -/
structure Message.ReadsAs (m : Message) (t : Translations) (pattern : String → Pattern) : Prop where
  value : t.ofPattern m.value ≠ "" →
    FluentMerge.ReadsAs (t.ofPattern m.value) (pattern (t.ofPattern m.value))
  attributes : ∀ a ∈ m.keptAttributes t,
    FluentMerge.ReadsAs (t.ofPattern (some a.value)) (pattern (t.ofPattern (some a.value)))

/-- A message with its translations read, wherever it stands. -/
def Message.reread (m : Message) (t : Translations) (pattern : String → Pattern) : Message where
  id := m.id
  value := if t.ofPattern m.value = "" then none else some (pattern (t.ofPattern m.value))
  attributes := (m.keptAttributes t).map (·.reread t pattern)
  comment := m.comment.map fun c => ⟨c.content, none⟩
  span := none

theorem keptAttributes_ne_nil (h : m.translated t ≠ "") (hvalue : t.ofPattern m.value = "") :
    m.keptAttributes t ≠ [] := by
  intro hnone
  refine h (if_pos ⟨hvalue, ?_⟩)
  have hlines := attributeLines_eq m t
  rw [hnone, List.flatMap_nil, List.flatMap_eq_nil_iff] at hlines
  exact List.eq_nil_iff_forall_not_mem.2 fun line hline => by cases hlines line hline

/-- A message that is kept has a value or an attribute. -/
theorem reread_hasContent (h : m.translated t ≠ "") :
    ((m.reread t pattern).value.isNone && (m.reread t pattern).attributes.isEmpty) = false := by
  by_cases hvalue : t.ofPattern m.value = ""
  · have hne := keptAttributes_ne_nil h hvalue
    simp [Message.reread, hne]
  · simp [Message.reread, hvalue]

/-- Behind the equals sign of a message its value is read, up to its attributes. -/
theorem value_reads (h : m.translated t ≠ "") (hreads : m.ReadsAs t pattern) {above : List Char}
    (habove : IsRawTail above) :
    ∃ rest, outcome (Read.pattern? (' ' :: unifyLineEnds ((t.ofPattern m.value).toList ++ above))) =
        .ok ((m.reread t pattern).value, rest) ∧
      skipBlank rest = skipBlank (unifyLineEnds above) ∧
      (m.keptAttributes t = [] → Leaves above rest) := by
  by_cases hvalue : t.ofPattern m.value = ""
  · have hnone : (m.reread t pattern).value = none := if_pos hvalue
    have hne := keptAttributes_ne_nil h hvalue
    refine ⟨' ' :: unifyLineEnds above, ?_, rfl, fun hnil => absurd hnil hne⟩
    rw [hvalue, hnone]
    exact pattern?_of_tail habove.tail
  · have hsome : (m.reread t pattern).value = some (pattern (t.ofPattern m.value)) :=
      if_neg hvalue
    obtain ⟨rest, hread, hrest⟩ := (hreads.value hvalue).pattern? habove
    exact ⟨rest, hsome ▸ hread, hrest.skipBlank_eq, fun _ => hrest⟩

theorem message_reads (hm : m.IsLegible) (h : m.translated t ≠ "") (hreads : m.ReadsAs t pattern)
    (hbelow : IsRawTail below) (hpoint : (skipBlank (unifyLineEnds below)).head? ≠ some '.') :
    ∃ rest, outcome (message (unifyLineEnds (m.translatedText t ++ below))) =
      .ok ({ m.reread t pattern with comment := none }, rest) ∧ Leaves below rest := by
  have hnames : ∀ a ∈ m.keptAttributes t, IsName a.id :=
    fun a ha => hm.attributes a (List.mem_filter.1 ha).1
  have htail := isRawTail_attributes (t := t) hnames hbelow
  have htext : unifyLineEnds (m.translatedText t ++ below) = m.id.toList ++ (" = ".toList ++
      unifyLineEnds ((t.ofPattern m.value).toList ++
        ((m.keptAttributes t).flatMap (·.translatedText t) ++ below))) := by
    have hparts : m.translatedText t ++ below = m.id.toList ++ ([' ', '=', ' '] ++
        ((t.ofPattern m.value).toList ++
          ((m.keptAttributes t).flatMap (·.translatedText t) ++ below))) := by
      simp [Message.translatedText]
    rw [hparts, unifyLineEnds_append hm.name.not_mem, unifyLineEnds_append (by decide)]
    rfl
  -- the attributes are the tail of the value, and what is below is the tail of the last of them
  obtain ⟨rest, hread, hblank, hnil⟩ := value_reads h hreads htail
  have hleaves : m.keptAttributes t = [] → Leaves below rest := by
    intro hnone
    have hleft := hnil hnone
    rwa [hnone] at hleft
  obtain ⟨rest', hattributes, hrest'⟩ :=
    attributes_read hnames hreads.attributes hbelow hpoint hblank hleaves
  refine ⟨rest', ?_, hrest'⟩
  rw [htext, outcome_message, definition_reads hm.name hread]
  simp only [bind, Except.bind, hattributes]
  have hcontent := @reread_hasContent m t pattern h
  rw [Message.reread] at hcontent ⊢
  simp only at hcontent ⊢
  rw [hcontent]
  rfl

/-- A message's text, its comment aside, begins with a letter. -/
theorem translatedText_eq_cons (hm : m.IsLegible) (below : List Char) :
    ∃ c s, c.isAlpha = true ∧ unifyLineEnds (m.translatedText t ++ below) = c :: s := by
  obtain ⟨c, name, hid, hc, -⟩ := hm.name
  rw [Message.translatedText, List.append_assoc, unifyLineEnds_append hm.name.not_mem, hid]
  exact ⟨c, _, hc, rfl⟩

/-- The entry that a message's text begins with, its comment aside, is the message. -/
theorem entry_reads (hm : m.IsLegible) (h : m.translated t ≠ "") (hreads : m.ReadsAs t pattern)
    (hbelow : IsRawTail below) (hpoint : (skipBlank (unifyLineEnds below)).head? ≠ some '.') :
    ∃ rest, outcome (entry (unifyLineEnds (m.translatedText t ++ below))) =
      .ok (.message { m.reread t pattern with comment := none }, rest) ∧ Leaves below rest := by
  obtain ⟨rest, hread, hrest⟩ := message_reads hm h hreads hbelow hpoint
  refine ⟨rest, ?_, hrest⟩
  obtain ⟨c, s, hc, hs⟩ := translatedText_eq_cons (t := t) hm below
  rw [hs] at hread ⊢
  rw [outcome_entry, if_neg (ne_of_isAlpha hc (by decide)), if_neg (ne_of_isAlpha hc (by decide)),
    if_pos hc, hread]
  rfl

/-! ## Comments -/

theorem commentLine_read {line : List Char} (hline : '\n' ∉ line) (s : List Char) :
    outcome (commentLine ((markedLine line ++ '\n' :: s).drop 1)) = .ok (line, '\n' :: s) := by
  by_cases h : line = []
  · subst h
    rfl
  · have hchars : ∀ c ∈ line, (c != '\n') = true := by
      intro c hc
      simp only [bne_iff_ne]
      rintro rfl
      exact hline hc
    rw [markedLine, if_neg h]
    show outcome (commentLine (' ' :: (line ++ '\n' :: s))) = _
    rw [outcome_commentLine, if_neg (by decide), if_pos rfl, List.takeWhile_append_of_pos hchars,
      List.dropWhile_append_of_pos hchars]
    simp

theorem isCommentLine_markedLine (line s : List Char) :
    isCommentLine 1 (markedLine line ++ '\n' :: s) = true := by
  by_cases h : line = []
  · subst h
    rfl
  · rw [markedLine, if_neg h]
    rfl

/-- The lines of a comment are read up to the line below that is none. -/
theorem commentLines_read {line : List Char} {lines : List (List Char)} (hline : '\n' ∉ line)
    (hlines : ∀ line ∈ lines, '\n' ∉ line) {s : List Char} (hs : isCommentLine 1 s = false) :
    outcome (commentLines 1 ((markedLine line ++ '\n' ::
        (lines.flatMap (fun line => markedLine line ++ ['\n']) ++ s)).drop 1)) =
      .ok (line :: lines, '\n' :: s) := by
  induction lines generalizing line with
  | nil =>
    rw [outcome_commentLines, commentLine_read hline]
    simp only [bind, Except.bind, List.flatMap_nil, List.nil_append, hs]
    rfl
  | cons next lines ih =>
    -- the mark of the next line is what makes the comment go on
    have hnext := ih (hlines next (by simp)) fun l hl => hlines l (List.mem_cons_of_mem _ hl)
    have htext : (next :: lines).flatMap (fun line => markedLine line ++ ['\n']) ++ s =
        markedLine next ++ '\n' ::
          (lines.flatMap (fun line => markedLine line ++ ['\n']) ++ s) := by
      simp
    rw [htext, outcome_commentLines, commentLine_read hline]
    simp only [bind, Except.bind, isCommentLine_markedLine, hnext, if_true]
    rfl

/-- The parts of a text that is cut at `d` have its other characters. -/
theorem mem_of_mem_splitOn {d : Char} {s line : List Char} (h : line ∈ s.splitOn d) :
    ∀ c ∈ line, c ∈ s ∧ c ≠ d := by
  induction s generalizing line with
  | nil =>
    obtain rfl : line = [] := by simpa using h
    simp
  | cons a s ih =>
    rw [List.splitOn_cons_eq_if_modifyHead] at h
    split at h
    · rcases List.mem_cons.1 h with rfl | h
      · simp
      · exact fun c hc => ⟨List.mem_cons_of_mem _ (ih h c hc).1, (ih h c hc).2⟩
    · next ha =>
      obtain ⟨first, others, hparts⟩ := List.exists_cons_of_ne_nil (List.splitOn_ne_nil d s)
      rw [hparts, List.modifyHead_cons] at h
      rw [hparts] at ih
      rcases List.mem_cons.1 h with rfl | h
      · intro c hc
        rcases List.mem_cons.1 hc with rfl | hc
        · exact ⟨by simp, by simpa using ha⟩
        · exact ⟨List.mem_cons_of_mem _ (ih (by simp) c hc).1, (ih (by simp) c hc).2⟩
      · intro c hc
        have hmem := ih (List.mem_cons_of_mem _ h) c hc
        exact ⟨List.mem_cons_of_mem _ hmem.1, hmem.2⟩

theorem Comment.IsLegible.not_mem_markedText {c : Comment} (h : c.IsLegible) :
    '\r' ∉ c.markedText := by
  intro hmem
  obtain ⟨line, hline, hmem⟩ := List.mem_flatMap.1 hmem
  rw [markedLine] at hmem
  have hchars : '\r' ∈ line := by
    split at hmem
    · simp at hmem
    · simpa using hmem
  exact h (mem_of_mem_splitOn hline '\r' hchars).1

/-- The marked lines of a comment are read as the comment. -/
theorem comment_reads {c : Comment} (hc : c.IsLegible) {s : List Char}
    (hs : isCommentLine 1 (unifyLineEnds s) = false) :
    outcome (entry (unifyLineEnds (c.markedText ++ s))) =
      .ok (.comment .entry ⟨c.content, none⟩, '\n' :: unifyLineEnds s) := by
  -- a comment has one line at least, which may be empty
  obtain ⟨line, lines, hparts⟩ := List.exists_cons_of_ne_nil
    (List.splitOn_ne_nil '\n' c.content.toList)
  have hparts' : ∀ l ∈ line :: lines, '\n' ∉ l := by
    rw [← hparts]
    exact fun l hl hmem => (mem_of_mem_splitOn hl '\n' hmem).2 rfl
  have htext : c.markedText ++ unifyLineEnds s = markedLine line ++ '\n' ::
      (lines.flatMap (fun line => markedLine line ++ ['\n']) ++ unifyLineEnds s) := by
    simp [Comment.markedText, hparts]
  have hread := commentLines_read (hparts' line (by simp))
    (fun l hl => hparts' l (List.mem_cons_of_mem _ hl)) hs
  -- what is read is put together again as it was split
  have hcontent : ['\n'].intercalate (line :: lines) = c.content.toList := by
    rw [← hparts, List.intercalate_splitOn]
  rw [unifyLineEnds_append hc.not_mem_markedText, htext]
  generalize lines.flatMap (fun line => markedLine line ++ ['\n']) ++ unifyLineEnds s = u at *
  have hmarks : commentMarks (markedLine line ++ '\n' :: u) = 1 := by
    have := isCommentLine_markedLine line u
    simp only [isCommentLine, Bool.and_eq_true, beq_iff_eq] at this
    exact this.1
  -- the mark of its first line tells that an entry is a comment
  obtain ⟨v, hv⟩ : ∃ v, markedLine line ++ '\n' :: u = '#' :: v := by
    rw [markedLine]
    split <;> exact ⟨_, rfl⟩
  rw [hv] at hread hmarks ⊢
  have hlevel : commentLevel? 1 = some .entry := rfl
  rw [outcome_entry, if_pos rfl, outcome_comment, hmarks, hlevel]
  simp only [hread]
  rw [← String.ofList_toList (s := c.content), ← hcontent]
  rfl

end Message

end FluentMerge
