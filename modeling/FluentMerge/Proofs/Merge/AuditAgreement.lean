import FluentMerge.Merge.Audit
import FluentMerge.Proofs.Merge.MessageText
import Mathlib.Data.List.Basic

/-!
# An audit and a merge of the same document

An audit goes through the entries on its own and writes no text. What it reports is what a merge
does: it names an entry that stops the merge exactly if there is one (`mergeEntries_error_iff`), and
of a message it reports what the translated text lacks (`Message.auditAgrees`).
-/

namespace FluentMerge

/-- The issues with a code, in order. -/
def reported (code : String) (issues : List Issue) : List Issue :=
  issues.filter fun i => i.code = code

@[simp] theorem reported_nil (code : String) : reported code [] = [] := rfl

@[simp] theorem reported_cons (code : String) (i : Issue) (issues : List Issue) :
    reported code (i :: issues) =
      if i.code = code then i :: reported code issues else reported code issues := by
  simp [reported, List.filter_cons]

@[simp] theorem reported_append (code : String) (xs ys : List Issue) :
    reported code (xs ++ ys) = reported code xs ++ reported code ys :=
  List.filter_append ..

/-- What is reported of many things is reported of one of them. -/
theorem reported_flatMap {α : Type} (code : String) (f : α → List Issue) (l : List α) :
    reported code (l.flatMap f) = l.flatMap fun a => reported code (f a) :=
  List.filter_flatMap ..

/-- Something is reported under a code if an issue has this code. -/
theorem reported_ne_nil_iff {code : String} {issues : List Issue} :
    reported code issues ≠ [] ↔ ∃ i ∈ issues, i.code = code := by
  simp [reported, List.filter_eq_nil_iff]

/-! ## Patterns and attributes -/

/-- The text that a catalog is asked for, if the pattern is a simple text and a line end is left in
it. -/
def Pattern.multilineKey? (p : Pattern) : Option String :=
  (p.simpleText?.map lookupKey).filter fun key => '\n' ∈ key.toList

/-- A pattern can be of a kind that is not looked up, and its key can be on many lines. Nothing else
is wrong with it. -/
theorem Pattern.issues_eq (p : Pattern) (place : Place) :
    p.issues place = (if p.simpleText? = none ∧ p.elements ≠ [] then [.unsupportedPattern place]
      else []) ++ (p.multilineKey?.map (.multilineKey place)).toList := by
  rw [Pattern.issues, Pattern.multilineKey?]
  cases hsimple : p.simpleText? with
  | none => by_cases helements : p.elements = [] <;> simp [helements]
  | some text =>
    -- one line end is made a space, so one is left if there were two
    have hkey : '\n' ∈ (lookupKey text).toList ↔ 1 < text.toList.count '\n' := by
      rw [lookupKey, String.toList_ofList, ← List.count_pos_iff, count_spaceFirstLineEnd]
      omega
    by_cases h : 1 < text.toList.count '\n' <;> simp [Option.filter, hkey, h]

/-- A pattern says nothing of what is translated. -/
theorem Pattern.reported_issues (p : Pattern) (place : Place) :
    reported "MULTILINE_KEY" (p.issues place) =
        (p.multilineKey?.map (.multilineKey place)).toList ∧
      reported "UNTRANSLATED_ATTRIBUTE" (p.issues place) = [] ∧
      reported "UNTRANSLATED_MESSAGE" (p.issues place) = [] := by
  rw [Pattern.issues_eq]
  cases p.multilineKey? <;> by_cases h : p.simpleText? = none ∧ p.elements ≠ [] <;>
    simp [h, Issue.code]

/-- The issue of an attribute that has no translation. -/
def Attribute.untranslated? (a : Attribute) (t : Translations) (message : String) : Option Issue :=
  if t.ofPattern (some a.value) = "" then some (.untranslatedAttribute ⟨message, some a.id⟩)
  else none

/-- An attribute is reported for its key and for its translation, each on its own. -/
theorem Attribute.reported_issues (a : Attribute) (t : Translations) (message : String) :
    reported "MULTILINE_KEY" (a.issues t message) =
        (a.value.multilineKey?.map (.multilineKey ⟨message, some a.id⟩)).toList ∧
      reported "UNTRANSLATED_ATTRIBUTE" (a.issues t message) =
        (a.untranslated? t message).toList ∧
      reported "UNTRANSLATED_MESSAGE" (a.issues t message) = [] := by
  obtain ⟨hkey, hattribute, hmessage⟩ := a.value.reported_issues ⟨message, some a.id⟩
  simp only [Attribute.issues, reported_append, hkey, hattribute, hmessage,
    Attribute.untranslated?]
  by_cases h : t.ofPattern (some a.value) = "" <;> simp [h, Issue.code]

/-! ## What is reported of a message -/

namespace Message

variable (m : Message) (t : Translations)

/-- The value and the attributes of a message, each with its place. -/
def patterns : List (Place × Pattern) :=
  (m.value.map fun p => (⟨m.id, none⟩, p)).toList ++
    m.attributes.map fun a => (⟨m.id, some a.id⟩, a.value)

/-- Whether the translated text of a message has a line for each of the attributes `rendered`, in
order, behind the lines of its comment, its name and its value. A message that is dropped has no
text, so it has no line for any. -/
def RendersAttributes (rendered : List Attribute) : Prop :=
  m.translated t = "" ∧ rendered = [] ∨
    (m.translated t).toList = (m.comment.map Comment.markedText).getD [] ++ (m.id.toList ++
      (" = ".toList ++ ((t.ofPattern m.value).toList ++ rendered.flatMap (·.translatedText t))))

/-- A message is dropped if neither its value nor an attribute is translated. -/
theorem translated_eq_empty_iff :
    m.translated t = "" ↔ t.ofPattern m.value = "" ∧ m.attributeLines t = [] := by
  refine ⟨fun h => ?_, fun h => if_pos h⟩
  by_contra hkept
  have htext : m.translated t = "\n".intercalate ((m.comment.map Comment.markedLines).getD [] ++
      (m.id ++ " = " ++ t.ofPattern m.value) :: m.attributeLines t) := if_neg hkept
  have hline : "\n".toList = ['\n'] := rfl
  have hnil := congrArg String.toList (htext.symm.trans h)
  -- the line with the name holds an equals sign at least
  rw [String.toList_intercalate, List.map_append, List.map_cons, hline, intercalate_around] at hnil
  simp at hnil

theorem keptAttributes_eq_nil_iff : m.keptAttributes t = [] ↔ m.attributeLines t = [] := by
  simp [keptAttributes, attributeLines, Attribute.translatedLine?, List.filter_eq_nil_iff,
    List.filterMap_eq_nil_iff]

/-- The attributes in the text are the translated ones, one line for each, in their order. -/
theorem rendersAttributes_keptAttributes : m.RendersAttributes t (m.keptAttributes t) := by
  by_cases h : m.translated t = ""
  · exact .inl ⟨h, (m.keptAttributes_eq_nil_iff t).2 ((m.translated_eq_empty_iff t).1 h).2⟩
  · exact .inr (toList_translated h)

/-- A message is reported as untranslated exactly if a merge writes nothing for it. -/
theorem issues_eq :
    m.issues t = (m.value.map (·.issues ⟨m.id, none⟩)).getD [] ++
      m.attributes.flatMap (·.issues t m.id) ++
        if m.translated t = "" then [.untranslatedMessage m.id] else [] := by
  have hdropped : (t.ofPattern m.value = "" ∧
      m.attributes.all (fun a => t.ofPattern (some a.value) = "") = true) ↔
        m.translated t = "" := by
    rw [translated_eq_empty_iff, ← keptAttributes_eq_nil_iff]
    simp [keptAttributes, List.filter_eq_nil_iff]
  simp only [issues, hdropped]

/-- What is reported of a message under each code: every key on many lines, every attribute without
a translation, and the message if nothing of it is translated. -/
theorem reported_issues :
    reported "MULTILINE_KEY" (m.issues t) =
        m.patterns.filterMap (fun p => p.2.multilineKey?.map (.multilineKey p.1)) ∧
      reported "UNTRANSLATED_ATTRIBUTE" (m.issues t) =
        m.attributes.filterMap (·.untranslated? t m.id) ∧
      reported "UNTRANSLATED_MESSAGE" (m.issues t) =
        if m.translated t = "" then [.untranslatedMessage m.id] else [] := by
  have hvalue (code : String) : reported code ((m.value.map (·.issues ⟨m.id, none⟩)).getD []) =
      (m.value.map fun p => reported code (p.issues ⟨m.id, none⟩)).getD [] := by
    cases m.value <;> rfl
  simp only [issues_eq, reported_append, reported_flatMap, hvalue,
    (Pattern.reported_issues _ _).1, (Pattern.reported_issues _ _).2.1,
    (Pattern.reported_issues _ _).2.2, (Attribute.reported_issues _ _ _).1,
    (Attribute.reported_issues _ _ _).2.1, (Attribute.reported_issues _ _ _).2.2]
  refine ⟨?_, ?_, ?_⟩
  · rw [patterns, List.filterMap_append, List.filterMap_map, List.filterMap_eq_flatMap_toList,
      List.filterMap_eq_flatMap_toList]
    cases m.value <;> by_cases h : m.translated t = "" <;> simp [h, Issue.code]
  · rw [List.filterMap_eq_flatMap_toList]
    cases m.value <;> by_cases h : m.translated t = "" <;> simp [h, Issue.code]
  · cases m.value <;> by_cases h : m.translated t = "" <;> simp [h, Issue.code]

/-- What an audit reports of a message is what its translated text lacks. -/
structure AuditAgrees : Prop where
  /-- It is reported as untranslated exactly if a merge writes nothing for it. -/
  message : (∃ i ∈ auditEntries t [.message m], i.code = "UNTRANSLATED_MESSAGE") ↔
    (Entry.message m).translated t = .ok ""
  /-- The attributes that are kept are those with a line in the text, and as many of the others are
  reported as there are. -/
  attributes : m.RendersAttributes t (m.keptAttributes t) ∧
    (reported "UNTRANSLATED_ATTRIBUTE" (auditEntries t [.message m])).length +
      (m.keptAttributes t).length = m.attributes.length
  /-- A line end is reported for the value and for each attribute whose key has one, in order. -/
  keys : reported "MULTILINE_KEY" (auditEntries t [.message m]) =
    m.patterns.filterMap fun p => p.2.multilineKey?.map (.multilineKey p.1)

/-- What the audit reports of a message is what a merge leaves out of it. -/
theorem auditAgrees : m.AuditAgrees t := by
  obtain ⟨hkeys, hattributes, hmessage⟩ := m.reported_issues t
  have haudit : auditEntries t [.message m] = m.issues t := by simp [auditEntries, Entry.issues]
  refine ⟨?_, ⟨m.rendersAttributes_keptAttributes t, ?_⟩, ?_⟩
  · rw [← reported_ne_nil_iff, haudit, hmessage]
    by_cases h : m.translated t = "" <;> simp [h, Entry.translated]
  · rw [haudit, hattributes, keptAttributes]
    induction m.attributes with
    | nil => rfl
    | cons a attributes ih =>
      by_cases h : t.ofPattern (some a.value) = "" <;> simp_all [Attribute.untranslated?] <;> omega
  · rw [haudit, hkeys]

end Message

/-! ## What stops a merge -/

/-- Whether an issue is that a document cannot be merged. -/
def Issue.StopsMerge (i : Issue) : Prop := i.code = "JUNK" ∨ i.code = "UNSUPPORTED_ENTRY"

/-- No pattern stops a merge. -/
theorem Pattern.not_stopsMerge {p : Pattern} {place : Place} :
    ∀ i ∈ p.issues place, ¬i.StopsMerge := by
  rw [Pattern.issues_eq]
  cases p.multilineKey? <;> by_cases h : p.simpleText? = none ∧ p.elements ≠ [] <;>
    simp [h, Issue.StopsMerge, Issue.code]

/-- Nor does a message: only junk and entries of another kind do. -/
theorem Message.not_stopsMerge {m : Message} {t : Translations} :
    ∀ i ∈ m.issues t, ¬i.StopsMerge := by
  intro i hi
  simp only [Message.issues, List.mem_append, List.mem_flatMap, Attribute.issues] at hi
  rcases hi with (hi | ⟨a, -, hi | hi⟩) | hi
  · cases hvalue : m.value with
    | none => simp [hvalue] at hi
    | some p => exact Pattern.not_stopsMerge i (by simpa [hvalue] using hi)
  · exact Pattern.not_stopsMerge i hi
  · split at hi
    · obtain rfl := List.mem_singleton.1 hi
      simp [Issue.StopsMerge, Issue.code]
    · cases hi
  · split at hi
    · obtain rfl := List.mem_singleton.1 hi
      simp [Issue.StopsMerge, Issue.code]
    · cases hi

/-- An entry cannot be merged exactly if that is one of its issues. -/
theorem Entry.translated_error_iff {e : Entry} {t : Translations} :
    (∃ u, e.translated t = .error u) ↔ ∃ i ∈ e.issues t, i.StopsMerge := by
  cases e with
  | message m =>
    refine iff_of_false ?_ ?_
    · rintro ⟨u, hu⟩
      cases hu
    · rintro ⟨i, hi, hstops⟩
      exact Message.not_stopsMerge i hi hstops
  | term r => simp [translated, issues, Issue.StopsMerge, Issue.code]
  | comment level c =>
    cases level <;> simp [translated, issues, Issue.StopsMerge, Issue.code]
  | junk j => simp [translated, issues, Issue.StopsMerge, Issue.code]

/-- A merge fails exactly if one of the entries cannot be merged. -/
theorem mergeEntries_error_iff {t : Translations} {es : List Entry} :
    (∃ u, mergeEntries t es = .error u) ↔ ∃ e ∈ es, ∃ u, e.translated t = .error u := by
  fun_induction mergeEntries t es with
  | case1 => simp
  | case2 e => simp
  | case3 e f rest ih =>
    rw [List.exists_mem_cons_iff, ← ih]
    cases e.translated t with
    | error u => simp [bind, Except.bind]
    | ok first =>
      cases mergeEntries t (f :: rest) with
      | error u => simp [bind, Except.bind]
      | ok others => simp [bind, Except.bind, pure, Except.pure]

/-- An audit and a merge agree: on whether the document can be merged, entry by entry, and on what
is left out of each message. -/
theorem audit_agrees_merge (t : Translations) (es : List Entry) :
    ((∃ u, mergeEntries t es = .error u) ↔
      ∃ i ∈ auditEntries t es, i.code = "JUNK" ∨ i.code = "UNSUPPORTED_ENTRY") ∧
    auditEntries t es = es.flatMap (fun e => auditEntries t [e]) ∧
    ∀ m : Message, m.AuditAgrees t := by
  refine ⟨?_, ?_, fun m => m.auditAgrees t⟩
  · rw [mergeEntries_error_iff]
    simp only [Entry.translated_error_iff, auditEntries, List.mem_flatMap]
    constructor
    · rintro ⟨e, he, i, hi, hstops⟩
      exact ⟨i, ⟨e, he, hi⟩, hstops⟩
    · rintro ⟨i, ⟨e, he, hi⟩, hstops⟩
      exact ⟨e, he, i, hi, hstops⟩
  · simp [auditEntries]

end FluentMerge
