import FluentMerge.Proofs.Catalog.Reading
import FluentMerge.Proofs.Merge.Reread
import Mathlib.Data.List.Induction

/-!
# A translation from end to end

Pairs of a text and a translation are written as the records of a catalog, and messages with values
of one or two lines as a document. The messages are read where they stand (`ofFileText_eq`), each
value is asked for as its lines with a space between them (`lookupKey_content`), and what comes of
the merge is the messages with the last translations of their texts, as far apart as they were
(`merge_of_written`).
-/

namespace FluentMerge

open Read
open Text (byteLength unifyLineEnds unifyLineEnds_eq_self)

/-! ## Pairs in a catalog -/

/-- The record of a text and its translation. -/
def pairRecord (pair : String × String) : Record := .simple pair.1 pair.2

/-- The translation in the last of the pairs with a text, empty if there is none. -/
def lastTranslation (pairs : List (String × String)) (text : String) : String :=
  (pairs.reverse.lookup text).getD ""

/-- Pairs as the records of a catalog, with a blank line below each. -/
def pairsText (pairs : List (String × String)) : List Char :=
  pairs.flatMap fun pair => "msgid ".toList ++ Quoted.quote pair.1 ++ '\n' ::
    ("msgstr ".toList ++ Quoted.quote pair.2 ++ '\n' :: '\n' :: [])

/-- The lines of a pair, with a blank line below. -/
def pairLines (pair : String × String) : List CatalogLine :=
  [.field .msgid pair.1, .field (.msgstr ⟨0, by decide⟩) pair.2, .blank]

theorem recordsLines_pairs (pairs : List (String × String)) :
    RecordsLines (pairs.map pairRecord) (pairs.flatMap pairLines) := by
  induction pairs with
  | nil => exact .nil
  | cons pair pairs ih =>
    have hrecord : RecordLines (pairRecord pair)
        [.field .msgid pair.1, .field (.msgstr ⟨0, by decide⟩) pair.2] :=
      .fields [] .none (.pieces pair.1 [] (by simp [String.join]))
        .none (.cons (by decide) (.pieces pair.2 [] (by simp [String.join])) .nil)
    have hall := RecordsLines.record hrecord (.blank ih)
    exact hall

theorem writesLines_pairs (pairs : List (String × String)) :
    WritesLines (pairs.flatMap pairLines) (pairsText pairs) := by
  induction pairs with
  | nil => exact .nil
  | cons pair pairs ih =>
    have hblank : CatalogLine.Writes .blank [] := .blank (by simp) (by simp)
    have hlines := WritesLines.cons (.field .msgid pair.1)
      (.cons (.single pair.2) (.cons hblank ih))
    have htext : pairsText (pair :: pairs) =
        Field.msgid.keyword.toList ++ ' ' :: Quoted.quote pair.1 ++ '\n' ::
          ("msgstr".toList ++ ' ' :: Quoted.quote pair.2 ++ '\n' ::
            ([] ++ '\n' :: pairsText pairs)) := by
      simp [pairsText, Field.keyword]
    rw [htext]
    exact hlines

/-- Any pairs can be written as records. -/
theorem writesRecords_pairsText (pairs : List (String × String)) :
    WritesRecords (pairs.map pairRecord) (String.ofList (pairsText pairs)) := by
  have hused : (pairs.flatMap pairLines).filter (· ≠ .obsolete) = pairs.flatMap pairLines := by
    have hpair (pair : String × String) :
        (pairLines pair).filter (· ≠ .obsolete) = pairLines pair := rfl
    simp only [List.filter_flatMap, hpair]
  refine ⟨pairs.flatMap pairLines, ?_, ?_⟩
  · rw [hused]
    exact recordsLines_pairs pairs
  · rw [String.toList_ofList]
    exact writesLines_pairs pairs

namespace Catalog

theorem localized_eq (c : Catalog) (msgid : String) : c.defaultTranslations.localized msgid =
    (((c.context? "").bind (·[msgid]?)).map Record.localized).getD "" := by
  rw [defaultTranslations, Translations.localized]
  cases c.context? "" <;> simp

/-- The last of the pairs with a text decides on its translation. -/
theorem localized_foldl_insert (pairs : List (String × String)) (msgid : String) :
    ((pairs.map pairRecord).foldl insert empty).defaultTranslations.localized msgid =
      lastTranslation pairs msgid := by
  induction pairs using List.reverseRecOn with
  | nil => simp [localized_eq, lastTranslation, empty, context?]
  | append_singleton pairs pair ih =>
    rw [localized_eq] at ih
    rw [List.map_append, List.foldl_append, List.map_singleton, List.foldl_cons, List.foldl_nil,
      localized_eq, getElem?_insert, lastTranslation, List.reverse_append, List.reverse_singleton,
      List.singleton_append, List.lookup_cons]
    by_cases htext : pair.1 = msgid
    · simp [htext, pairRecord, Record.simple, Record.context, Record.blank, Record.localized]
    · have hne : (msgid == pair.1) = false := by simpa using Ne.symm htext
      have hrecord : ¬((pairRecord pair).context = "" ∧ (pairRecord pair).msgid = msgid) :=
        fun h => htext h.2
      rw [if_neg hrecord, ih, hne]
      rfl

end Catalog

/-! ## Values of one or two lines -/

/-- A value as it is written: a line of text, or two of which the second is indented. -/
inductive WrittenValue where
  | line (first : String)
  | lines (first : String) (indent : Nat) (second : String)

namespace WrittenValue

/-- The value where it is written. -/
def text : WrittenValue → String
  | line first => first
  | lines first indent second =>
    first ++ "\n" ++ String.ofList (List.replicate indent ' ') ++ second

/-- The value as it is read, without the indent. -/
def content : WrittenValue → String
  | line first => first
  | lines first _ second => first ++ "\n" ++ second

/-- The text that a catalog has for the value: its lines with a space between them. -/
def key : WrittenValue → String
  | line first => first
  | lines first _ second => first ++ " " ++ second

/-- Whether a text can be a line of a value. -/
def IsLine (line : String) : Prop := IsPlain line ∧ line ≠ ""

instance (line : String) : Decidable (IsLine line) := inferInstanceAs (Decidable (_ ∧ _))

/-- Whether the value goes on where it is indented, and its lines are plain. -/
inductive IsWritten : WrittenValue → Prop
  | line {first : String} : IsLine first → IsWritten (line first)
  | lines {first second : String} {indent : Nat} : IsLine first → 0 < indent → IsLine second →
      (∀ c ∈ second.toList.head?, c ∉ ['.', '[', '*']) → IsWritten (lines first indent second)

variable {v : WrittenValue}

theorem IsLine.isTextLine {line : String} (h : IsLine line) : IsTextLine line.toList :=
  h.1.isTextLine h.2

theorem IsLine.not_mem {line : String} (h : IsLine line) : '\n' ∉ line.toList :=
  fun hmem => h.1.chars _ hmem (by simp)

/-- The value is read as one text, up to the tail behind it. -/
theorem IsWritten.reads (h : v.IsWritten) {b : List Char} (hb : IsTail b) :
    outcome (pattern? (v.text.toList ++ b)) = .ok (some ⟨[.text v.content]⟩, b) := by
  cases h with
  | line hfirst =>
    have hread := pattern?_line hfirst.isTextLine hb
    rwa [String.ofList_toList] at hread
  | @lines first second n hfirst hn hsecond hmark =>
    have hmarks : ∀ c ∈ second.toList.head?, c ∉ lineMarks := by
      intro c hc hmem
      rcases List.mem_cons.1 hmem with rfl | hmem
      · exact hsecond.1.chars '}' (List.mem_of_head? hc) (by simp)
      · exact hmark c hc hmem
    have hread := pattern?_lines hfirst.isTextLine hn hsecond.isTextLine hmarks hb
    have htext : (WrittenValue.lines first n second).text.toList ++ b =
        first.toList ++ '\n' :: (List.replicate n ' ' ++ (second.toList ++ b)) := by
      simp [text]
    have hcontent : (WrittenValue.lines first n second).content =
        String.ofList (first.toList ++ '\n' :: second.toList) := by
      apply String.toList_inj.1
      simp [content]
    rw [htext, hcontent, hread]

theorem IsWritten.not_mem (h : v.IsWritten) : '\r' ∉ v.text.toList := by
  cases h with
  | line hfirst => exact hfirst.1.not_mem
  | lines hfirst _ hsecond _ => simp [text, hfirst.1.not_mem, hsecond.1.not_mem]

theorem IsWritten.content_ne (h : v.IsWritten) : v.content ≠ "" := by
  cases h with
  | line hfirst => exact hfirst.2
  | lines => simp [content]

end WrittenValue

theorem spaceFirstLineEnd_of_not_mem {s : List Char} (h : '\n' ∉ s) : spaceFirstLineEnd s = s := by
  induction s with
  | nil => rfl
  | cons c s ih =>
    obtain ⟨hc, hs⟩ : '\n' ≠ c ∧ '\n' ∉ s := by simpa using h
    rw [spaceFirstLineEnd, if_neg (Ne.symm hc), ih hs]

theorem spaceFirstLineEnd_append {s : List Char} (h : '\n' ∉ s) (t : List Char) :
    spaceFirstLineEnd (s ++ '\n' :: t) = s ++ ' ' :: t := by
  induction s with
  | nil => rfl
  | cons c s ih =>
    obtain ⟨hc, hs⟩ : '\n' ≠ c ∧ '\n' ∉ s := by simpa using h
    rw [List.cons_append, spaceFirstLineEnd, if_neg (Ne.symm hc), ih hs, List.cons_append]

/-- A catalog is asked for the lines of a value with a space between them. -/
theorem WrittenValue.IsWritten.lookupKey_content {v : WrittenValue} (h : v.IsWritten) :
    lookupKey v.content = v.key := by
  cases h with
  | line hfirst =>
    rw [content, key, lookupKey, spaceFirstLineEnd_of_not_mem hfirst.not_mem, String.ofList_toList]
  | @lines first second n hfirst _ _ _ =>
    have htext : (first ++ "\n" ++ second).toList = first.toList ++ '\n' :: second.toList := by simp
    rw [content, key, lookupKey, htext, spaceFirstLineEnd_append hfirst.not_mem]
    apply String.toList_inj.1
    simp

/-! ## Messages in a document -/

/-- A message as it is written, with the number of line ends behind it. -/
structure WrittenMessage where
  id : String
  value : WrittenValue
  lineEnds : Nat

namespace WrittenMessage

/-- The message where it is written. -/
def text (m : WrittenMessage) : String := m.id ++ " = " ++ m.value.text

/-- The message with a translation of its value, and nothing if that is empty. -/
def withTranslation (m : WrittenMessage) (translation : String) : String :=
  if translation = "" then "" else m.id ++ " = " ++ translation

/-- Whether the message has a name and a value that can be read. -/
structure IsWritten (m : WrittenMessage) : Prop where
  name : IsName m.id
  value : m.value.IsWritten

/-- The message as it is read, at this place. -/
def entryAt (m : WrittenMessage) (start : Nat) : Entry :=
  .message ⟨m.id, some ⟨[.text m.value.content]⟩, [], none,
    some ⟨start, start + byteLength m.text.toList⟩⟩

variable {m : WrittenMessage}

theorem IsWritten.opens (h : m.IsWritten) (below : List Char) : Opens (m.text.toList ++ below) := by
  obtain ⟨c, name, hid, hc, hname⟩ := h.name
  have htext : m.text.toList ++ below =
      c :: (name ++ ([' '] ++ '=' :: ' ' :: (m.value.text.toList ++ below))) := by
    simp [text, hid]
  rw [htext]
  exact .message _ hc hname (by simp)

theorem IsWritten.exists_cons (h : m.IsWritten) (below : List Char) :
    ∃ c s, m.text.toList ++ below = c :: s ∧ c.isAlpha = true := by
  obtain ⟨c, name, hid, hc, -⟩ := h.name
  refine ⟨c, name ++ (" = ".toList ++ (m.value.text.toList ++ below)), ?_, hc⟩
  simp [text, hid]

theorem IsWritten.head_ne_point (h : m.IsWritten) (below : List Char) :
    (m.text.toList ++ below).head? ≠ some '.' := by
  obtain ⟨c, s, htext, hc⟩ := h.exists_cons below
  have hpoint : c ≠ '.' := ne_of_isAlpha hc (by decide)
  simp [htext, hpoint]

/-- The message is read up to what stands below. -/
theorem IsWritten.reads (h : m.IsWritten) {b : List Char} (hb : IsBelow b) :
    outcome (entry (m.text.toList ++ b)) =
      .ok (.message ⟨m.id, some ⟨[.text m.value.content]⟩, [], none, none⟩, b) := by
  have htext : m.text.toList ++ b =
      m.id.toList ++ (" =".toList ++ ' ' :: (m.value.text.toList ++ b)) := by
    simp [text]
  rw [htext]
  exact entry_of_pattern? h.name (pattern?_space (h.value.reads hb.isTail)) hb.head_skipBlank

/-- The next entry is the message, and one line end behind it is taken. -/
theorem IsWritten.nextEntry_eq (h : m.IsWritten) {b : List Char} (hb : IsBelow b) (start : Nat) :
    nextEntry start (m.text.toList ++ b) = (m.entryAt start, b.tail) := by
  rw [nextEntry_of_entry (h.reads hb) hb.isTail.head_eq, consumed_eq rfl]
  rfl

/-- The message with its text translated. -/
theorem IsWritten.translated_entryAt (h : m.IsWritten) (t : Translations) (start : Nat) :
    (m.entryAt start).translated t = .ok (m.withTranslation (t.localized m.value.key)) := by
  have htranslation : t.ofPattern (some ⟨[.text m.value.content]⟩) =
      t.localized m.value.key := by
    simp [Translations.ofPattern, Pattern.simpleText?, h.value.content_ne,
      h.value.lookupKey_content]
  simp only [entryAt, Entry.translated, Message.translated, htranslation, withTranslation]
  simp [Message.attributeLines]

end WrittenMessage

/-! ## Documents of messages -/

/-- Messages with their line ends behind them. -/
def documentText (ms : List WrittenMessage) : List Char :=
  ms.flatMap fun m => m.text.toList ++ List.replicate m.lineEnds '\n'

/-- Whether messages make up a document: each but the last ends with its line. -/
inductive IsDocument : List WrittenMessage → Prop
  | nil : IsDocument []
  | cons {m : WrittenMessage} {ms : List WrittenMessage} : m.IsWritten →
      (ms ≠ [] → 0 < m.lineEnds) → IsDocument ms → IsDocument (m :: ms)

/-- The messages of a document as they are read, the first one at this place. -/
def entriesFrom (start : Nat) : List WrittenMessage → List Entry
  | [] => []
  | m :: ms => m.entryAt start :: entriesFrom (start + byteLength m.text.toList + m.lineEnds) ms

/-- Texts in order, with the line ends behind them between each two. -/
def spaced : List (String × Nat) → String
  | [] => ""
  | [x] => x.1
  | x :: y :: rest => x.1 ++ String.ofList (List.replicate x.2 '\n') ++ spaced (y :: rest)

section Documents

variable {m : WrittenMessage} {ms : List WrittenMessage}

theorem documentText_cons (m : WrittenMessage) (ms : List WrittenMessage) :
    documentText (m :: ms) =
      m.text.toList ++ (List.replicate m.lineEnds '\n' ++ documentText ms) := by
  simp [documentText]

/-- Below a message and its line ends stands another message, or nothing. -/
theorem IsDocument.isBelow (h : IsDocument ms) {n : Nat} (hn : ms ≠ [] → 0 < n) :
    IsBelow (List.replicate n '\n' ++ documentText ms) := by
  cases n with
  | zero =>
    obtain rfl : ms = [] := by
      by_contra hne
      exact Nat.lt_irrefl 0 (hn hne)
    exact .nil
  | succ n =>
    rw [List.replicate_succ, List.cons_append]
    cases h with
    | nil => exact .cons n .nothing (by simp [documentText])
    | cons hm _ _ =>
      rw [documentText_cons]
      exact .cons n (hm.opens _) (hm.head_ne_point _)

/-- Behind line ends a message is read, and the others behind its first line end. -/
theorem WrittenMessage.IsWritten.separateEntries_eq (h : m.IsWritten) {b : List Char}
    (hb : IsBelow b) (offset n : Nat) :
    separateEntries offset (List.replicate n '\n' ++ (m.text.toList ++ b)) =
      m.entryAt (offset + n) ::
        separateEntries (offset + n + byteLength (m.text.toList ++ b.take 1)) b.tail := by
  have hblank : IsBlank (List.replicate n '\n') := by simp [IsBlank]
  have hlines : (skipBlankLines (List.replicate n '\n' ++ (m.text.toList ++ b))).2 =
      m.text.toList ++ b := by
    rw [skipBlankLines_replicate, (h.opens b).skipBlankLines_eq]
  have hstart : offset + n = offset + byteLength
      (consumed (List.replicate n '\n' ++ (m.text.toList ++ b)) (m.text.toList ++ b)) := by
    rw [consumed_eq rfl, hblank.byteLength_eq, List.length_replicate]
  have hnext := h.nextEntry_eq hb (offset + n)
  have htaken : consumed (m.text.toList ++ b) b.tail = m.text.toList ++ b.take 1 := by
    apply consumed_eq
    cases b <;> simp
  obtain ⟨c, t, hcons, -⟩ := h.exists_cons b
  rw [hcons] at hlines hstart hnext htaken ⊢
  rw [separateEntries_of_cons hlines hstart, hnext, htaken]

/-- The entries of a document are its messages, as far apart as they were written. -/
theorem IsDocument.separateEntries_eq (h : IsDocument ms) (offset n : Nat) :
    separateEntries offset (List.replicate n '\n' ++ documentText ms) =
      entriesFrom (offset + n) ms := by
  induction h generalizing offset n with
  | nil =>
    have hblank : IsBlank (List.replicate n '\n' ++ documentText []) := by
      simp [IsBlank, documentText]
    exact separateEntries_of_nil (skipBlankLines_eq_nil hblank) offset
  | @cons m ms hm hends hms ih =>
    rw [documentText_cons, hm.separateEntries_eq (hms.isBelow hends), entriesFrom]
    -- the line end that is read with a message is one of those between it and the next
    cases hn : m.lineEnds with
    | zero =>
      obtain rfl : ms = [] := by
        by_contra hne
        exact absurd (hends hne) (by simp [hn])
      exact congrArg (_ :: ·) (ih _ 0)
    | succ k =>
      rw [List.replicate_succ, List.cons_append, List.tail_cons, ih]
      have hline : byteLength ['\n'] = 1 := rfl
      simp only [List.take_succ_cons, List.take_zero, Text.byteLength_append, hline]
      congr 2
      omega

theorem attachComments_entriesFrom (ms : List WrittenMessage) (start : Nat) :
    attachComments (entriesFrom start ms) = entriesFrom start ms := by
  induction ms generalizing start with
  | nil => rfl
  | cons m ms ih =>
    rw [entriesFrom, WrittenMessage.entryAt, attachComments_message, ih]

/-- A document is merged to its messages with their translations, as far apart as they were. -/
theorem IsDocument.mergeEntries_eq (h : IsDocument ms) (t : Translations) (start : Nat) :
    mergeEntries t (entriesFrom start ms) =
      .ok (spaced (ms.map fun m => (m.withTranslation (t.localized m.value.key), m.lineEnds))) := by
  induction h generalizing start with
  | nil => rfl
  | @cons m ms hm _ hms ih =>
    have hfirst := hm.translated_entryAt t start
    have hothers := ih (start + byteLength m.text.toList + m.lineEnds)
    cases ms with
    | nil => exact hfirst
    | cons m' ms =>
      have hseparator : separator (m.entryAt start).span
          (m'.entryAt (start + byteLength m.text.toList + m.lineEnds)).span =
            String.ofList (List.replicate m.lineEnds '\n') := by
        simp [separator, separatorLength, WrittenMessage.entryAt, Entry.span]
      rw [entriesFrom] at hothers
      rw [entriesFrom, entriesFrom, mergeEntries, hfirst, hothers, hseparator]
      rfl

theorem IsDocument.not_mem (h : IsDocument ms) : '\r' ∉ documentText ms := by
  induction h with
  | nil => simp [documentText]
  | cons hm _ _ ih =>
    simp [documentText_cons, WrittenMessage.text, hm.name.not_mem, hm.value.not_mem, ih]

/-- The document in a file of its text. -/
theorem IsDocument.ofFileText_eq (h : IsDocument ms) :
    Document.ofFileText (String.ofList (documentText ms)) = ⟨entriesFrom 0 ms⟩ := by
  have hends : unifyLineEnds (documentText ms) = documentText ms := unifyLineEnds_eq_self h.not_mem
  have hmark : Text.dropByteOrderMark (documentText ms) = documentText ms := by
    apply dropByteOrderMark_eq_self
    rw [hends]
    cases h with
    | nil => simp [documentText]
    | cons hm _ _ =>
      rw [documentText_cons]
      exact (hm.opens _).head_ne_byteOrderMark
  have hentries := h.separateEntries_eq 0 0
  rw [List.replicate_zero, List.nil_append] at hentries
  rw [Document.ofFileText, String.toList_ofList, hmark, hends, Document.parse, String.toList_ofList,
    hentries, attachComments_entriesFrom]

end Documents

/-! ## The run -/

/-- Whatever pairs are written as a catalog and messages as a document, merging the two gives the
messages with the last translations that the pairs have of their texts. -/
theorem merge_of_written {pairs : List (String × String)} {po : String}
    (hpo : WritesRecords (pairs.map pairRecord) po) {ms : List WrittenMessage}
    (hms : IsDocument ms) :
    ∃ c, Catalog.parse po = .ok c ∧
      (Document.ofFileText (String.ofList (documentText ms))).merge c =
        .ok (spaced (ms.map fun m =>
          (m.withTranslation (lastTranslation pairs m.value.key), m.lineEnds))) := by
  let c := PartialCatalog.finish ⟨(pairs.map pairRecord).foldl Catalog.addRecord .empty, .blank⟩
  have htranslations :
      c.translations = ((pairs.map pairRecord).foldl Catalog.insert .empty).translations :=
    translations_foldl_addRecord _ rfl
  have hlocalized (text : String) :
      c.defaultTranslations.localized text = lastTranslation pairs text := by
    rw [← Catalog.localized_foldl_insert, Catalog.defaultTranslations, Catalog.context?,
      htranslations]
    rfl
  refine ⟨c, parse_of_writesRecords hpo, ?_⟩
  rw [hms.ofFileText_eq, Document.merge, hms.mergeEntries_eq]
  simp only [hlocalized]

/-- A greeting that is translated twice, and a farewell. -/
def greetingPairs : List (String × String) :=
  [("Hello there", "Salut"), ("Bye", "Adieu"), ("Hello there", "Bonjour")]

/-- A greeting on two lines, a farewell, and a question that no pair has. -/
def greetingMessages : List WrittenMessage :=
  [⟨"hello", .lines "Hello" 4 "there", 2⟩, ⟨"bye", .line "Bye", 1⟩, ⟨"ask", .line "Why?", 1⟩]

theorem merge_of_written_greeting :
    String.ofList (documentText greetingMessages) =
      "hello = Hello\n    there\n\nbye = Bye\nask = Why?\n" ∧
    ∃ c, Catalog.parse (String.ofList (pairsText greetingPairs)) = .ok c ∧
      (Document.ofFileText (String.ofList (documentText greetingMessages))).merge c =
        .ok "hello = Bonjour\n\nbye = Adieu\n" := by
  have hlines : ∀ line ∈ ["Hello", "there", "Bye", "Why?"], WrittenValue.IsLine line := by
    decide +kernel
  have hnames : ∀ id ∈ ["hello", "bye", "ask"], IsName id := by decide +kernel
  have hmark : "there".toList.head? = some 't' := by decide +kernel
  have hhello : WrittenMessage.IsWritten ⟨"hello", .lines "Hello" 4 "there", 2⟩ :=
    { name := hnames _ (by simp)
      value := .lines (hlines _ (by simp)) (by decide) (hlines _ (by simp)) (by rw [hmark]; simp) }
  have hbye : WrittenMessage.IsWritten ⟨"bye", .line "Bye", 1⟩ :=
    { name := hnames _ (by simp), value := .line (hlines _ (by simp)) }
  have hask : WrittenMessage.IsWritten ⟨"ask", .line "Why?", 1⟩ :=
    { name := hnames _ (by simp), value := .line (hlines _ (by simp)) }
  -- two messages are apart by the line ends of the one above
  have hdocument : IsDocument greetingMessages :=
    .cons hhello (fun _ => by decide) (.cons hbye (fun _ => by decide) (.cons hask (by simp) .nil))
  have hrun := merge_of_written (writesRecords_pairsText greetingPairs) hdocument
  refine ⟨by decide +kernel, ?_⟩
  have htext : spaced (greetingMessages.map fun m =>
      -- the second translation of a text counts, and a text without one is left out
      (m.withTranslation (lastTranslation greetingPairs m.value.key), m.lineEnds)) =
        "hello = Bonjour\n\nbye = Adieu\n" := by
    decide +kernel
  rwa [htext] at hrun

end FluentMerge
