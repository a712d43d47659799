import FluentMerge.Proofs.Merge.AuditAgreement

/-!
# What an audit says of lost content

An audit names each attribute that a merge leaves out. It has no issue for a value that is left out:
it names the message when nothing of it is kept, and when the value is such that no catalog would
translate it as it stands. So a value is lost without a word exactly if its message is kept for its
attributes and the catalog merely has no translation of it (`reportsLostContent_iff`,
`not_reportsLostContent`).
-/

namespace FluentMerge

/-! ## Names of issues -/

theorem Place.name_ne (message a : String) : (⟨message, some a⟩ : Place).name ≠ message := by
  intro h
  have hlength := congrArg (fun s : String => s.toList.length) h
  simp [Place.name] at hlength

theorem Pattern.entryId_issues {p : Pattern} {place : Place} :
    ∀ i ∈ p.issues place, i.entryId = place.name := by
  rw [Pattern.issues_eq]
  cases p.multilineKey? <;> by_cases h : p.simpleText? = none ∧ p.elements ≠ [] <;>
    simp [h, Issue.entryId]

theorem Attribute.entryId_issues {a : Attribute} {t : Translations} {message : String} :
    ∀ i ∈ a.issues t message, i.entryId = (⟨message, some a.id⟩ : Place).name := by
  intro i hi
  rcases List.mem_append.1 hi with hi | hi
  · exact Pattern.entryId_issues i hi
  · split at hi
    · obtain rfl := List.mem_singleton.1 hi
      rfl
    · cases hi

/-- Whether a pattern has an issue whatever the catalog holds: it is no simple text, though not
empty, or a line end is left in the text that the catalog is asked for. -/
def Pattern.HasIssue (p : Pattern) : Prop :=
  p.simpleText? = none ∧ p.elements ≠ [] ∨ p.multilineKey? ≠ none

theorem Pattern.issues_ne_nil_iff {p : Pattern} {place : Place} :
    p.issues place ≠ [] ↔ p.HasIssue := by
  rw [Pattern.issues_eq, Pattern.HasIssue]
  cases p.multilineKey? <;> by_cases h : p.simpleText? = none ∧ p.elements ≠ [] <;> simp [h]

/-! ## Lost content -/

namespace Message

variable (m : Message) (t : Translations)

/-- Whether the message has a value and its translated text has none. -/
def LosesValue : Prop := m.value ≠ none ∧ t.ofPattern m.value = ""

/-- Whether an audit of the message alone has an issue with this name. -/
def IsReportedAs (name : String) : Prop := ∃ i ∈ auditEntries t [.message m], i.entryId = name

/-- Whether an audit names all that a merge leaves out of a message. -/
structure ReportsLostContent : Prop where
  value : m.LosesValue t → m.IsReportedAs t m.id
  attributes : ∀ a ∈ m.attributes, a ∉ m.keptAttributes t →
    m.IsReportedAs t (m.id ++ "." ++ a.id)

theorem isReportedAs_iff {name : String} :
    m.IsReportedAs t name ↔ ∃ i ∈ m.issues t, i.entryId = name := by
  simp [IsReportedAs, auditEntries, Entry.issues]

/-- A message is named for its value when that has an issue, and for itself when it is dropped. -/
theorem isReportedAs_id_iff :
    m.IsReportedAs t m.id ↔ (∃ p ∈ m.value, p.HasIssue) ∨ m.translated t = "" := by
  rw [isReportedAs_iff, issues_eq]
  constructor
  · rintro ⟨i, hi, hname⟩
    rcases List.mem_append.1 hi with hi | hi
    · rcases List.mem_append.1 hi with hi | hi
      · refine .inl ?_
        cases hvalue : m.value with
        | none => simp [hvalue] at hi
        | some p =>
          have hne : p.issues ⟨m.id, none⟩ ≠ [] := List.ne_nil_of_mem (by simpa [hvalue] using hi)
          exact ⟨p, rfl, Pattern.issues_ne_nil_iff.1 hne⟩
      · -- the name of an attribute is longer than that of its message
        obtain ⟨a, -, hi⟩ := List.mem_flatMap.1 hi
        exact absurd ((Attribute.entryId_issues i hi).symm.trans hname) (Place.name_ne m.id a.id)
    · split at hi
      · next hdropped => exact .inr hdropped
      · cases hi
  · rintro (⟨p, hp, hissue⟩ | hdropped)
    · have hne : p.issues ⟨m.id, none⟩ ≠ [] := Pattern.issues_ne_nil_iff.2 hissue
      obtain ⟨i, hi⟩ := List.exists_mem_of_ne_nil _ hne
      exact ⟨i, by simp [Option.mem_def.1 hp, hi], Pattern.entryId_issues i hi⟩
    · exact ⟨.untranslatedMessage m.id, by simp [hdropped], rfl⟩

/-- An attribute that is left out is named, whatever else is wrong with it. -/
theorem isReportedAs_attribute {a : Attribute} (ha : a ∈ m.attributes)
    (hlost : a ∉ m.keptAttributes t) : m.IsReportedAs t (m.id ++ "." ++ a.id) := by
  have hempty : t.ofPattern (some a.value) = "" := by
    by_contra hne
    exact hlost (List.mem_filter.2 ⟨ha, by simpa using hne⟩)
  have hissue : .untranslatedAttribute ⟨m.id, some a.id⟩ ∈ a.issues t m.id := by
    simp [Attribute.issues, hempty]
  rw [isReportedAs_iff, issues_eq]
  refine ⟨.untranslatedAttribute ⟨m.id, some a.id⟩, ?_, rfl⟩
  exact List.mem_append_left _ (List.mem_append_right _ (List.mem_flatMap.2 ⟨a, ha, hissue⟩))

/-- An audit names all that is lost of a message unless the message is kept without its value, and
the value is one that a catalog could translate. -/
theorem reportsLostContent_iff :
    m.ReportsLostContent t ↔
      (m.LosesValue t → (∃ p ∈ m.value, p.HasIssue) ∨ m.translated t = "") := by
  rw [← isReportedAs_id_iff]
  constructor
  · intro h
    exact h.value
  · intro h
    exact ⟨h, fun a ha hlost => m.isReportedAs_attribute t ha hlost⟩

/-- A button with a text and a label. -/
def button : Message :=
  ⟨"button", some ⟨[.text "Save"]⟩, [⟨"label", ⟨[.text "Save it"]⟩⟩], none, none⟩

/-- When a catalog translates the label only, the button is written without its text, and the audit
has nothing to say of that. -/
theorem not_reportsLostContent : ¬∀ (m : Message) (t : Translations), m.ReportsLostContent t := by
  intro h
  let label : Translations := (∅ : Translations).insert "Save it" (.simple "Save it" "Enregistrer")
  have haudit : auditEntries label [.message button] = [] := by decide +kernel
  have hlost : button.LosesValue label := ⟨by decide, by decide +kernel⟩
  obtain ⟨i, hi, -⟩ := (h button label).value hlost
  rw [haudit] at hi
  cases hi

end Message

end FluentMerge
