import FluentMerge.Proofs.Merge.MessageReading

/-!
# Reading a merged document

When each translation can be read as a value on its own, a merged document is read as the messages
that were kept, with their names and comments and with the translations as values
(`merge_reread`). Translations on one line, without braces and with no space at their ends, are such
(`merge_reread_plain`).
-/

namespace FluentMerge

open Read
open Text (byteLength unifyLineEnds unifyLineEnds_cons)

/-- The message wherever it stands. -/
def Message.unplaced (m : Message) : Message :=
  { m with comment := m.comment.map fun c => ⟨c.content, none⟩, span := none }

/-- The entry wherever it stands, when it is a message. -/
def Entry.unplaced : Entry → Entry
  | .message m => .message m.unplaced
  | e => e

/-! ## Blank text behind a message -/

/-- Blank text in front of a tail is skipped with it. -/
theorem skipBlankLines_append_of_isBlank {u : List Char} (h : IsBlank u) {b : List Char}
    (hb : IsTail b) : (skipBlankLines (u ++ b)).2 = (skipBlankLines b).2 := by
  rcases skipBlankLines_append_cases u with hall | ⟨n, line, -, hspaces, hline⟩
  · exact hall b hb
  · -- blank text has no line that is not blank
    have hnil := skipBlankLines_eq_nil h
    rw [← List.append_nil u, hline [] .nil] at hnil
    rw [List.append_nil] at hnil
    exact absurd (congrArg skipSpaces hnil) hspaces

/-- Behind a message the lines that are not blank are those of what stands below. -/
theorem Leaves.skipBlankLines_tail {below rest : List Char} (h : Leaves below rest)
    (hbelow : IsBelow (unifyLineEnds below)) :
    (skipBlankLines rest.tail).2 = (skipBlankLines (unifyLineEnds below)).2 := by
  obtain ⟨u, hu, ⟨rfl, rfl⟩ | rfl⟩ := h.text
  · have htail : IsBlank rest.tail := fun c hc => hu c (List.mem_of_mem_tail hc)
    have hempty : (skipBlankLines (unifyLineEnds [])).2 = [] := skipBlankLines_eq_nil isBlank_nil
    rw [skipBlankLines_eq_nil htail, hempty]
  · cases u with
    | nil => exact hbelow.skipBlankLines_tail
    | cons c u =>
      exact skipBlankLines_append_of_isBlank (fun d hd => hu d (.tail _ hd)) hbelow.isTail

/-! ## One message and the others below -/

section Messages

variable {t : Translations} {pattern : String → Pattern}

/-- The next entry is a message without comment. -/
theorem nextEntry_message {m : Message} (hm : m.IsLegible) (h : m.translated t ≠ "")
    (hreads : m.ReadsAs t pattern) {below : List Char} (hhead : ∀ c ∈ below.head?, c = '\n')
    (hbelow : IsBelow (unifyLineEnds below)) (start : Nat) :
    ∃ stop rest, nextEntry start (unifyLineEnds (m.translatedText t ++ below)) =
        (.message { m.reread t pattern with comment := none, span := some ⟨start, stop⟩ }, rest) ∧
      (skipBlankLines rest).2 = (skipBlankLines (unifyLineEnds below)).2 := by
  obtain ⟨rest, hread, hrest⟩ :=
    entry_reads hm h hreads ⟨hhead, hbelow.isTail⟩ hbelow.head_skipBlank
  exact ⟨_, rest.tail, nextEntry_of_entry hread hrest.head start, hrest.skipBlankLines_tail hbelow⟩

/-- The marked lines of a comment are the next entry, and the text under them begins on the line
below. -/
theorem separateEntries_comment {c : Comment} (hc : c.IsLegible) {x u : List Char} {d : Char}
    (hd : d.isAlpha = true) (hx : unifyLineEnds x = d :: u) {s : List Char}
    (hs : (skipBlankLines s).2 = unifyLineEnds (c.markedText ++ x)) (offset : Nat) :
    ∃ span : Span, separateEntries offset s =
      .comment .entry ⟨c.content, some span⟩ :: separateEntries (span.stop + 1) (d :: u) := by
  -- what is below begins with a letter, so the comment does not go on there
  have hmark : isCommentLine 1 (d :: u) = false := by
    have hne : d ≠ '#' := ne_of_isAlpha hd (by decide)
    simp [isCommentLine, commentMarks, hne]
  have hread := comment_reads hc (s := x) (hx ▸ hmark)
  obtain ⟨v, hv⟩ : ∃ v, unifyLineEnds (c.markedText ++ x) = '#' :: v := by
    obtain ⟨v, hv⟩ := markedText_eq_cons c
    rw [hv, List.cons_append, unifyLineEnds_cons (by decide)]
    exact ⟨_, rfl⟩
  rw [hv] at hs hread
  rw [hx] at hread
  -- the comment ends in front of its last line end, which is one byte
  obtain ⟨above, habove⟩ := outcome_suffix hread
  have hcons : consumed ('#' :: v) ('\n' :: d :: u) = above := consumed_eq habove.symm
  have hcons' : consumed ('#' :: v) (d :: u) = above ++ ['\n'] :=
    consumed_eq (by rw [← habove, List.append_assoc, List.singleton_append])
  generalize hstart : offset + byteLength (consumed s ('#' :: v)) = start
  rw [separateEntries_of_cons hs hstart.symm, nextEntry_of_entry hread (by simp), hcons]
  refine ⟨⟨start, start + byteLength above⟩, ?_⟩
  have hline : byteLength ['\n'] = 1 := rfl
  simp only [List.tail_cons, hcons', Text.byteLength_append, hline, Nat.add_assoc]
  rfl

theorem attachComments_message (m : Message) (es : List Entry) :
    attachComments (.message m :: es) = .message m :: attachComments es := by
  apply attachComments_of_ne
  rintro c ⟨⟩

/-- A comment is given to the message on the line below it. -/
theorem attachComments_comment {c : Comment} {m : Message} {above below : Span}
    (hc : c.span = some above) (hm : m.span = some below) (hline : above.stop + 1 = below.start)
    (es : List Entry) :
    attachComments (.comment .entry c :: .message m :: es) =
      .message { m with comment := some c, span := some ⟨above.start, below.stop⟩ } ::
        attachComments es := by
  have habove : c.isDirectlyAbove m.span = true := by
    simp [Comment.isDirectlyAbove, hc, hm, hline]
  have hattach : c.attachTo? (.message m) =
      some (.message { m with comment := some c, span := some ⟨above.start, below.stop⟩ }) := by
    rw [Comment.attachTo?, if_pos habove]
    simp [Comment.spanWith, hc, hm]
  rw [attachComments, hattach]

/-- The entries of a message's text and of what stands below. -/
theorem separateEntries_message {m : Message} (hm : m.IsLegible) (h : m.translated t ≠ "")
    (hreads : m.ReadsAs t pattern) {below : List Char} (hhead : ∀ c ∈ below.head?, c = '\n')
    (hbelow : IsBelow (unifyLineEnds below)) {s : List Char}
    (hs : (skipBlankLines s).2 = unifyLineEnds ((m.translated t).toList ++ below)) (offset : Nat) :
    ∃ m' offset' rest, attachComments (separateEntries offset s) =
        .message m' :: attachComments (separateEntries offset' rest) ∧
      m'.unplaced = m.reread t pattern ∧
      (skipBlankLines rest).2 = (skipBlankLines (unifyLineEnds below)).2 := by
  obtain ⟨d, u, hd, hu⟩ := translatedText_eq_cons (t := t) hm below
  have hnext (start : Nat) := nextEntry_message hm h hreads hhead hbelow start
  rw [hu] at hnext
  rw [toList_translated h] at hs
  -- without a comment one entry is read, and with one two that are made one
  cases hcomment : m.comment with
  | none =>
    rw [hcomment, Option.map_none, Option.getD_none, List.nil_append, hu] at hs
    obtain ⟨stop, rest, hread, hrest⟩ := hnext (offset + byteLength (consumed s (d :: u)))
    rw [separateEntries_of_cons hs rfl, hread, attachComments_message]
    refine ⟨_, _, rest, rfl, ?_, hrest⟩
    simp [Message.unplaced, Message.reread, hcomment]
  | some c =>
    rw [hcomment, Option.map_some, Option.getD_some, List.append_assoc] at hs
    obtain ⟨span, hentries⟩ := separateEntries_comment (hm.comment c hcomment) hd hu hs offset
    obtain ⟨stop, rest, hread, hrest⟩ := hnext (span.stop + 1)
    have hstart : span.stop + 1 = span.stop + 1 + byteLength (consumed (d :: u) (d :: u)) := by simp
    rw [hentries, separateEntries_of_cons (skipBlankLines_of_isAlpha hd u) hstart, hread]
    refine ⟨_, _, rest, attachComments_comment rfl rfl rfl _, ?_, hrest⟩
    simp [Message.unplaced, Message.reread, hcomment]

/-- Spread texts of messages are read as the messages. -/
theorem Spread.reread {ms : List Message} (hms : ∀ m ∈ ms, m.IsLegible)
    (hkept : ∀ m ∈ ms, m.translated t ≠ "") (hreads : ∀ m ∈ ms, m.ReadsAs t pattern)
    {s : List Char} (h : Spread (ms.map fun m => (m.translated t).toList) s) (offset : Nat)
    {v : List Char} (hv : (skipBlankLines v).2 = (skipBlankLines (unifyLineEnds s)).2) :
    (attachComments (separateEntries offset v)).map Entry.unplaced =
      ms.map fun m => .message (m.reread t pattern) := by
  generalize htexts : ms.map (fun m => (m.translated t).toList) = texts at h
  -- `v` is what is left of the text: it differs from `s` by blank lines only
  induction h generalizing ms offset v with
  | nil =>
    obtain rfl : ms = [] := by simpa using htexts
    have hempty : (skipBlankLines (unifyLineEnds [])).2 = [] := skipBlankLines_eq_nil isBlank_nil
    rw [separateEntries_of_nil (hv.trans hempty)]
    rfl
  | lineEnd _ ih =>
    refine ih hms hkept hreads offset ?_ htexts
    rw [hv, unifyLineEnds_cons (by decide), skipBlankLines_of_lineEnd rfl]
  | @text x s texts hx h hs ih =>
    cases ms with
    | nil => cases htexts
    | cons m ms =>
      obtain ⟨rfl, rfl⟩ := List.cons.inj htexts
      have hopens : ∀ x ∈ ms.map fun m => (m.translated t).toList, OpensText x := by
        intro x hx
        obtain ⟨m', hm', rfl⟩ := List.mem_map.1 hx
        exact opensText_translated (hms m' (.tail _ hm')) (hkept m' (.tail _ hm'))
      have hopen := opensText_translated (hms m (.head _)) (hkept m (.head _)) s
      rw [hopen.1.skipBlankLines_eq] at hv
      obtain ⟨m', offset', rest, hentries, hm', hrest⟩ :=
        separateEntries_message (hms m (.head _)) (hkept m (.head _)) (hreads m (.head _)) hs
          (h.isBelow_of_head hopens hs) hv offset
      rw [hentries, List.map_cons, List.map_cons, Entry.unplaced, hm']
      congr 1
      exact ih (fun m hm => hms m (.tail _ hm)) (fun m hm => hkept m (.tail _ hm))
        (fun m hm => hreads m (.tail _ hm)) offset' hrest rfl

/-- A merged document is read as the messages that were kept, if each translation can be read. -/
theorem merge_reread {ftl out : String}
    (h : mergeEntries t (Document.ofFileText ftl).entries = .ok out)
    (hreads : ∀ m ∈ keptMessages t (Document.ofFileText ftl).entries, m.ReadsAs t pattern) :
    (Document.ofFileText out).entries.map Entry.unplaced =
      (keptMessages t (Document.ofFileText ftl).entries).map fun m =>
        .message (m.reread t pattern) := by
  have hspread := merge_spread h
  have hms : ∀ m ∈ keptMessages t (Document.ofFileText ftl).entries,
      m.IsLegible ∧ m.translated t ≠ "" := by
    intro m hm
    obtain ⟨hmem, hkept⟩ := mem_keptMessages.1 hm
    exact ⟨ofFileText_isLegible ftl _ hmem, hkept⟩
  have hopens : ∀ x ∈ (keptMessages t (Document.ofFileText ftl).entries).map
      fun m => (m.translated t).toList, OpensText x := by
    intro x hx
    obtain ⟨m, hm, rfl⟩ := List.mem_map.1 hx
    exact opensText_translated (hms m hm).1 (hms m hm).2
  -- a text that begins as an entry does has no byte order mark in front
  have hentries : (Document.ofFileText out).entries =
      attachComments (separateEntries 0 (unifyLineEnds out.toList)) := by
    rw [Document.ofFileText, hspread.dropByteOrderMark_eq hopens, Document.parse,
      String.toList_ofList]
  rw [hentries]
  exact hspread.reread (fun m hm => (hms m hm).1) (fun m hm => (hms m hm).2) hreads 0 rfl

end Messages

/-! ## Plain translations -/

/-- Whether a translation is on one line, without braces and with no space at its ends. -/
structure IsPlain (translation : String) : Prop where
  chars : ∀ c ∈ translation.toList, c ∉ ['\n', '\r', '{', '}']
  head : translation.toList.head? ≠ some ' '
  last : translation.toList.getLast? ≠ some ' '

instance (translation : String) : Decidable (IsPlain translation) :=
  decidable_of_iff ((translation.toList.all fun c => c ∉ ['\n', '\r', '{', '}']) ∧
      translation.toList.head? ≠ some ' ' ∧ translation.toList.getLast? ≠ some ' ')
    ⟨fun h => ⟨by simpa using h.1, h.2.1, h.2.2⟩, fun h => ⟨by simpa using h.chars, h.head, h.last⟩⟩

namespace IsPlain

variable {translation : String}

theorem not_mem (h : IsPlain translation) : '\r' ∉ translation.toList :=
  fun hmem => h.chars _ hmem (by simp)

theorem isTextLine (h : IsPlain translation) (hne : translation ≠ "") :
    IsTextLine translation.toList where
  chars c hc := by
    have hmarks := h.chars c hc
    simp only [List.mem_cons, List.not_mem_nil, or_false, not_or] at hmarks
    simp [isTextChar, hmarks]
  ne_nil := mt String.toList_eq_nil_iff.1 hne
  head := h.head
  last := h.last

/-- A plain translation is read as the one text that it is. -/
theorem readsAs (h : IsPlain translation) (hne : translation ≠ "") :
    ReadsAs translation ⟨[.text translation]⟩ := by
  have hread := pattern?_line (h.isTextLine hne) .nil
  rw [List.append_nil, String.ofList_toList] at hread
  exact ⟨[], by rwa [Text.unifyLineEnds_eq_self h.not_mem], isBlank_nil⟩

end IsPlain

/-- Plain translations come back from a merged document. -/
theorem merge_reread_plain {t : Translations} {ftl out : String}
    (h : mergeEntries t (Document.ofFileText ftl).entries = .ok out)
    (hplain : ∀ m ∈ keptMessages t (Document.ofFileText ftl).entries,
      IsPlain (t.ofPattern m.value) ∧
        ∀ a ∈ m.attributes, IsPlain (t.ofPattern (some a.value))) :
    (Document.ofFileText out).entries.map Entry.unplaced =
      (keptMessages t (Document.ofFileText ftl).entries).map fun m =>
        .message (m.reread t fun translation => ⟨[.text translation]⟩) := by
  refine merge_reread h fun m hm => ⟨fun hne => (hplain m hm).1.readsAs hne, ?_⟩
  intro a ha
  obtain ⟨ha, hne⟩ := List.mem_filter.1 ha
  exact ((hplain m hm).2 a ha).readsAs (by simpa using hne)

/-- The translations of a greeting and of what it is labelled with. -/
def greetings : Translations :=
  ((∅ : Translations).insert "Hello" (.simple "Hello" "Bonjour")).insert "World"
    (.simple "World" "le monde")

/-- A greeting with a comment and an attribute, and a message without translation below it. -/
theorem merge_reread_plain_greeting :
    mergeEntries greetings
        (Document.ofFileText "# To you\nhello = Hello\n    .label = World\n\nbye = Bye\n").entries =
      .ok "# To you\nhello = Bonjour\n  .label = le monde\n\n" ∧
    (Document.ofFileText "# To you\nhello = Bonjour\n  .label = le monde\n\n").entries.map
        Entry.unplaced =
      [.message ⟨"hello", some ⟨[.text "Bonjour"]⟩, [⟨"label", ⟨[.text "le monde"]⟩⟩],
        some ⟨"To you", none⟩, none⟩] := by
  have hmerge : mergeEntries greetings
      (Document.ofFileText "# To you\nhello = Hello\n    .label = World\n\nbye = Bye\n").entries =
      .ok "# To you\nhello = Bonjour\n  .label = le monde\n\n" := by decide +kernel
  refine ⟨hmerge, (merge_reread_plain hmerge (by decide +kernel)).trans ?_⟩
  decide +kernel

end FluentMerge
