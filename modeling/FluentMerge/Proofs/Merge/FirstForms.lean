import FluentMerge.Catalog.Parser
import FluentMerge.Proofs.Merge.AuditAgreement

/-!
# What is read of a catalog

A merge and an audit ask a catalog for the first translation of each simple text of a document's
messages, and for nothing else. So two catalogs that answer alike are merged alike, whatever else
they hold, and nothing is lost when a catalog is reduced to its answers (`takesAlike_firstForms`).
-/

namespace FluentMerge

/-! ## Answers of a catalog -/

namespace Catalog

variable (c : Catalog) (msgid : String)

/-- The first translation of a text without context. It is empty if there is no such context, no
record of the text in it, or no translation in the record. -/
def firstForm : String :=
  match c.translations[""]? with
  | none => ""
  | some records =>
    match records[msgid]? with
    | none => ""
    | some r => r.msgstr.headD ""

/-- The catalog of nothing but first translations: no charset and no headers, no other context, no
record of the empty text, and in each record no comment, no text for more than one and no further
translation. -/
def firstForms : Catalog where
  charset := ""
  headers := ∅
  translations := (∅ : Std.ExtTreeMap String Translations).insert ""
    ((c.defaultTranslations.filter fun msgid _ => msgid ≠ "").map
      fun msgid r => .simple msgid r.localized)

/-- What a text is localized as is the first form under its key in the default context. -/
theorem localized_defaultTranslations :
    c.defaultTranslations.localized msgid = c.firstForm msgid := by
  rw [defaultTranslations, context?, firstForm, Translations.localized]
  cases c.translations[""]? with
  | none => simp
  | some records =>
    dsimp only [Option.getD_some]
    cases records[msgid]? <;> rfl

/-- The catalog of first forms answers as the whole catalog does. The empty text is the key of the
header and is kept out. -/
theorem firstForm_firstForms {msgid : String} (h : msgid ≠ "") :
    c.firstForms.firstForm msgid = c.firstForm msgid := by
  have hrecord : c.firstForms.defaultTranslations[msgid]? =
      c.defaultTranslations[msgid]?.map fun r => .simple msgid r.localized := by
    have hdefault : c.firstForms.defaultTranslations =
        (c.defaultTranslations.filter fun msgid _ => msgid ≠ "").map
          fun msgid r => .simple msgid r.localized := by
      simp [firstForms, defaultTranslations, context?]
    rw [hdefault, Std.ExtTreeMap.getElem?_map, Std.ExtTreeMap.getElem?_filter']
    cases c.defaultTranslations[msgid]? <;> simp [h]
  rw [← localized_defaultTranslations, ← localized_defaultTranslations, Translations.localized,
    Translations.localized, hrecord, Option.map_map]
  rfl

end Catalog

/-! ## Questions of a document -/

/-- The simple texts of a message: its value and its attributes, where these are such. -/
def Message.texts (m : Message) : List String :=
  (m.value.toList ++ m.attributes.map Attribute.value).filterMap Pattern.simpleText?

/-- The simple texts of an entry. Only messages are translated. -/
def Entry.texts : Entry → List String
  | .message m => m.texts
  | _ => []

/-- The simple texts of the messages of a document. -/
def Document.texts (d : Document) : List String := d.entries.flatMap Entry.texts

/-- The text that a catalog is asked for is never empty. -/
theorem lookupKey_ne_empty {p : Pattern} {text : String} (h : p.simpleText? = some text) :
    lookupKey text ≠ "" := by
  have hne : text ≠ "" := by
    rw [Pattern.simpleText?] at h
    split at h
    · split at h
      · cases h
      · next hvalue =>
        cases h
        exact hvalue
    · cases h
  intro hkey
  have hlength := congrArg (fun s : String => s.toList.length) hkey
  simp [lookupKey, hne] at hlength

theorem Document.mem_texts {d : Document} {text : String} (h : text ∈ d.texts) :
    ∃ p : Pattern, p.simpleText? = some text := by
  obtain ⟨e, -, h⟩ := List.mem_flatMap.1 h
  cases e with
  | message m =>
    obtain ⟨p, -, hp⟩ := List.mem_filterMap.1 h
    exact ⟨p, hp⟩
  | _ => cases h

/-! ## The same answers -/

section Alike

variable {t u : Translations}

/-- Whether translations answer alike for these simple texts. -/
def Translations.Alike (t u : Translations) (texts : List String) : Prop :=
  ∀ text ∈ texts, t.localized (lookupKey text) = u.localized (lookupKey text)

/-- A pattern is looked up by its text, if it has one, and by nothing else. -/
theorem ofPattern_congr {p : Option Pattern}
    (h : ∀ text, p.bind Pattern.simpleText? = some text →
      t.localized (lookupKey text) = u.localized (lookupKey text)) :
    t.ofPattern p = u.ofPattern p := by
  rw [Translations.ofPattern, Translations.ofPattern]
  cases hsimple : p.bind Pattern.simpleText? with
  | none => rfl
  | some text => exact h text hsimple

namespace Message

variable {m : Message}

theorem ofPattern_value (h : t.Alike u m.texts) : t.ofPattern m.value = u.ofPattern m.value := by
  refine ofPattern_congr fun text htext => h text ?_
  obtain ⟨p, hp, hsimple⟩ := Option.bind_eq_some_iff.1 htext
  exact List.mem_filterMap.2 ⟨p, by simp [hp], hsimple⟩

theorem ofPattern_attribute (h : t.Alike u m.texts) {a : Attribute} (ha : a ∈ m.attributes) :
    t.ofPattern (some a.value) = u.ofPattern (some a.value) := by
  refine ofPattern_congr fun text htext => h text ?_
  exact List.mem_filterMap.2
    ⟨a.value, List.mem_append_right _ (List.mem_map_of_mem ha), htext⟩

/-- A message is translated text by text, so catalogs that answer alike give the same. -/
theorem translated_congr (h : t.Alike u m.texts) : m.translated t = m.translated u := by
  have hlines : m.attributeLines t = m.attributeLines u := by
    refine List.filterMap_congr fun a ha => ?_
    rw [Attribute.translatedLine?, Attribute.translatedLine?, ofPattern_attribute h ha]
  rw [translated, translated, ofPattern_value h, hlines]

/-- The audit asks for the same texts as the merge. -/
theorem issues_congr (h : t.Alike u m.texts) : m.issues t = m.issues u := by
  have hattributes : m.attributes.flatMap (·.issues t m.id) =
      m.attributes.flatMap (·.issues u m.id) := by
    refine List.flatMap_congr fun a ha => ?_
    rw [Attribute.issues, Attribute.issues, ofPattern_attribute h ha]
  rw [issues_eq, issues_eq, hattributes, translated_congr h]

end Message

theorem Entry.translated_congr {e : Entry} (h : t.Alike u e.texts) :
    e.translated t = e.translated u := by
  cases e with
  | message m => exact congrArg Except.ok (Message.translated_congr h)
  | comment level _ => cases level <;> rfl
  | _ => rfl

theorem Entry.issues_congr {e : Entry} (h : t.Alike u e.texts) : e.issues t = e.issues u := by
  cases e with
  | message m => exact Message.issues_congr h
  | comment level _ => cases level <;> rfl
  | _ => rfl

/-- A merge is alike when each of its entries is, up to the first that cannot be merged. -/
theorem mergeEntries_congr {es : List Entry} (h : ∀ e ∈ es, e.translated t = e.translated u) :
    mergeEntries t es = mergeEntries u es := by
  fun_induction mergeEntries t es with
  | case1 => rfl
  | case2 e => exact h e (.head _)
  | case3 e f rest ih =>
    rw [mergeEntries, h e (.head _), ih fun e he => h e (.tail _ he)]

end Alike

/-- Whether two catalogs make no difference to a document: it is merged to the same text or not
merged for the same entry, and its audits are the same. -/
structure Document.TakesAlike (d : Document) (c c' : Catalog) : Prop where
  merge : d.merge c = d.merge c'
  audit : d.audit c = d.audit c'

/-- A document asks a catalog for the first forms of its texts and for nothing else. -/
theorem Document.takesAlike_of_firstForm {d : Document} {c c' : Catalog}
    (h : ∀ text ∈ d.texts, c.firstForm (lookupKey text) = c'.firstForm (lookupKey text)) :
    d.TakesAlike c c' := by
  have halike : ∀ e ∈ d.entries,
      c.defaultTranslations.Alike c'.defaultTranslations e.texts := by
    intro e he text htext
    rw [Catalog.localized_defaultTranslations, Catalog.localized_defaultTranslations]
    exact h text (List.mem_flatMap.2 ⟨e, he, htext⟩)
  refine ⟨mergeEntries_congr fun e he => Entry.translated_congr (halike e he), ?_⟩
  exact List.flatMap_congr fun e he => Entry.issues_congr (halike e he)

/-- A document takes two catalogs alike if their first translations of its simple texts are the
same, and it takes a catalog like its first translations alone. -/
theorem takesAlike_firstForms (d : Document) :
    (∀ c c' : Catalog,
      (∀ text ∈ d.texts, c.firstForm (lookupKey text) = c'.firstForm (lookupKey text)) →
        d.TakesAlike c c') ∧
    ∀ c : Catalog, d.TakesAlike c c.firstForms := by
  refine ⟨fun c c' => d.takesAlike_of_firstForm, fun c => ?_⟩
  refine d.takesAlike_of_firstForm fun text htext => ?_
  obtain ⟨p, hp⟩ := Document.mem_texts htext
  exact (c.firstForm_firstForms (lookupKey_ne_empty hp)).symm

/-- A document of one greeting. -/
def greetingDocument : Document := ⟨[.message ⟨"greeting", some ⟨[.text "Hello"]⟩, [], none, none⟩]⟩

/-- A catalog with a header, a greeting for a menu, and a greeting in two forms. -/
def greetingCatalog : Catalog :=
  [⟨none, "", none, ["Content-Type: text/plain; charset=utf-8\n"], .empty⟩,
    ⟨some "menu", "Hello", none, ["Salut"], .empty⟩,
    ⟨none, "Hello", some "Hello to all", ["Bonjour", "Bonjour à tous"],
      ⟨["To you"], [], [], [], []⟩⟩].foldl Catalog.addRecord .empty

/-- Of that catalog one translation is read, so a catalog of this one is taken alike. -/
theorem takesAlike_firstForms_greeting :
    (∀ text ∈ greetingDocument.texts, greetingCatalog.firstForm (lookupKey text) =
      (Catalog.empty.insert (.simple "Hello" "Bonjour")).firstForm (lookupKey text)) ∧
    greetingDocument.TakesAlike greetingCatalog
      (Catalog.empty.insert (.simple "Hello" "Bonjour")) := by
  have hforms : ∀ text ∈ greetingDocument.texts, greetingCatalog.firstForm (lookupKey text) =
      (Catalog.empty.insert (.simple "Hello" "Bonjour")).firstForm (lookupKey text) := by
    decide +kernel
  exact ⟨hforms, (takesAlike_firstForms greetingDocument).1 _ _ hforms⟩

end FluentMerge
