import FluentMerge.Document.Reading
import FluentMerge.Proofs.Catalog.Reading

/-!
# Consistent catalogs

A catalog is consistent when each record stands where it says itself, under its context and its
text. `Catalog.IsConsistent` asks besides that no record has more than 256 translations, that no
context is without records and that there is a charset. What is inserted keeps this
(`IsConsistent.insert`), and what is read has it (`isConsistent_of_parse`).

A catalog that is read is made of records that are added one after the other, and each of them has
its text from a field `msgid` of its own (`exists_records_of_runs`). This rests on `IsSound`: when a
translation has come, so has the text it is for, and no string can go on with that text.
-/

namespace FluentMerge

/-! ## Consistency -/

namespace Catalog

/-- Whether a record is found under this context and this text. -/
def Stores (c : Catalog) (context msgid : String) (r : Record) : Prop :=
  (c.context? context).bind (·[msgid]?) = some r

/-- Whether every record stands under its own context and text and has no more than 256
translations, and every context has a record. -/
structure IsFiled (c : Catalog) : Prop where
  context_eq : ∀ {context msgid r}, c.Stores context msgid r → r.context = context
  msgid_eq : ∀ {context msgid r}, c.Stores context msgid r → r.msgid = msgid
  forms : ∀ {context msgid r}, c.Stores context msgid r → r.msgstr.length ≤ 256
  contexts : ∀ name, c.context? name ≠ some ∅

/-- Whether the records are where they belong, and a charset is declared. -/
structure IsConsistent (c : Catalog) : Prop extends IsFiled c where
  charset : c.charset ≠ ""

variable {c d : Catalog} {r s : Record} {rs : List Record} {context msgid : String}

theorem not_stores_empty : ¬ Catalog.empty.Stores context msgid r := by
  simp [Stores, context?, empty]

theorem stores_insert (h : (c.insert r).Stores context msgid s) :
    (r.context = context ∧ r.msgid = msgid ∧ r = s) ∨ c.Stores context msgid s := by
  rw [Stores, getElem?_insert] at h
  split at h
  · next hplace =>
    cases h
    exact .inl ⟨hplace.1, hplace.2, rfl⟩
  · exact .inr h

/-- A record that is found after insertions is one of those inserted, or was there before. -/
theorem mem_of_stores_foldl (h : (rs.foldl Catalog.insert c).Stores context msgid s) :
    s ∈ rs ∨ c.Stores context msgid s := by
  induction rs generalizing c with
  | nil => exact .inr h
  | cons r rs ih =>
    obtain hmem | hs := ih h
    · exact .inl (.tail _ hmem)
    · obtain ⟨-, -, rfl⟩ | hs := stores_insert hs
      · exact .inl (.head _)
      · exact .inr hs

namespace IsFiled

theorem empty : Catalog.empty.IsFiled where
  context_eq hs := absurd hs not_stores_empty
  msgid_eq hs := absurd hs not_stores_empty
  forms hs := absurd hs not_stores_empty
  contexts := context?_empty_ne

theorem insert (h : c.IsFiled) (hr : r.msgstr.length ≤ 256) : (c.insert r).IsFiled where
  context_eq hs := by
    obtain ⟨hcontext, -, rfl⟩ | hs := stores_insert hs
    · exact hcontext
    · exact h.context_eq hs
  msgid_eq hs := by
    obtain ⟨-, hmsgid, rfl⟩ | hs := stores_insert hs
    · exact hmsgid
    · exact h.msgid_eq hs
  forms hs := by
    obtain ⟨-, -, rfl⟩ | hs := stores_insert hs
    · exact hr
    · exact h.forms hs
  contexts := context?_insert_ne h.contexts r

theorem foldl_insert (h : c.IsFiled) (hrs : ∀ r ∈ rs, r.msgstr.length ≤ 256) :
    (rs.foldl Catalog.insert c).IsFiled := by
  induction rs generalizing c with
  | nil => exact h
  | cons r rs ih =>
    apply ih (h.insert (hrs r (.head _)))
    intro s hs
    exact hrs s (.tail _ hs)

end IsFiled

theorem charset_foldl_insert (c : Catalog) (rs : List Record) :
    (rs.foldl Catalog.insert c).charset = c.charset := by
  induction rs generalizing c with
  | nil => rfl
  | cons r rs ih => exact ih (c.insert r)

/-- Which contexts there are and what is found in them is a matter of the records alone. -/
theorem stores_congr (h : c.translations = d.translations) :
    c.Stores context msgid r ↔ d.Stores context msgid r := by
  rw [Stores, Stores, context?, context?, h]

theorem IsFiled.congr (h : d.IsFiled) (hcd : c.translations = d.translations) : c.IsFiled where
  context_eq hs := h.context_eq ((stores_congr hcd).1 hs)
  msgid_eq hs := h.msgid_eq ((stores_congr hcd).1 hs)
  forms hs := h.forms ((stores_congr hcd).1 hs)
  contexts name := by
    rw [context?, hcd]
    exact h.contexts name

end Catalog

/-! ## Fields `msgid` -/

namespace CatalogLine

/-- The strings below a field that go on with it. Comments and lines no longer in use may stand
between them; a blank line and another field end it. -/
def openStrings : List CatalogLine → List String
  | .continuation value :: ls => value :: openStrings ls
  | .comment _ _ :: ls => openStrings ls
  | .obsolete :: ls => openStrings ls
  | _ => []

/-- The texts of the fields `msgid`, each joined from all its strings. -/
def msgids : List CatalogLine → List String
  | [] => []
  | .field .msgid value :: ls => String.join (value :: openStrings ls) :: msgids ls
  | _ :: ls => msgids ls

end CatalogLine

open CatalogLine (openStrings msgids)

/-- The text that the record which is being read will have when the lines `ls` are read too, if its
field has come. -/
def Draft.msgid? (d : Draft) (ls : List CatalogLine) : Option String :=
  if d.hasMsgid then
    some (d.record.msgid ++ String.join (if d.openField = some .msgid then openStrings ls else []))
  else none

namespace PartialCatalog

variable {p q : PartialCatalog} {line : CatalogLine} {ls : List CatalogLine}

/-- What is known of the record that is being read: a translation only comes after the text it is
for, no string goes on with the text then, and there are not too many translations. -/
structure IsSound (p : PartialCatalog) : Prop where
  hasMsgid : p.draft.hasMsgstr = true → p.draft.hasMsgid = true
  openField : p.draft.hasMsgstr = true → p.draft.openField ≠ some .msgid
  forms : p.draft.record.msgstr.length ≤ 256

theorem isSound_blank (c : Catalog) : IsSound ⟨c, .blank⟩ :=
  ⟨nofun, nofun, Nat.zero_le _⟩

/-! ## Closing a record -/

/-- Whether a line closes the record that is being read. -/
def closesRecord (p : PartialCatalog) : CatalogLine → Bool
  | .blank => p.draft.hasMsgid
  | .comment _ _ | .field .msgctxt _ | .field .msgid _ => p.draft.hasMsgstr
  | _ => false

/-- A record that is closed has had its text, and this is final. -/
theorem IsSound.msgid?_of_closesRecord (hp : p.IsSound) (h : p.closesRecord line = true) :
    p.draft.msgid? (line :: ls) = some p.draft.record.msgid := by
  have hmsgid : p.draft.hasMsgid = true := by
    unfold closesRecord at h
    split at h
    · exact h
    all_goals first | exact hp.hasMsgid h | cases h
  have hstrings :
      (if p.draft.openField = some .msgid then openStrings (line :: ls) else []) = [] := by
    unfold closesRecord at h
    split at h
    · exact ite_self _
    all_goals first | exact if_neg (hp.openField h) | cases h
  rw [Draft.msgid?, if_pos hmsgid, hstrings, String.join_nil, String.append_empty]

theorem IsSound.flushIf (hp : p.IsSound) (complete : Bool) : (p.flushIf complete).IsSound := by
  cases complete with
  | false => exact hp
  | true => exact isSound_blank _

/-- The state in which a line finds the catalog when the record above it is closed where it has to
be. -/
def flushFor (p : PartialCatalog) (line : CatalogLine) : PartialCatalog :=
  p.flushIf (p.closesRecord line)

/-- Closing a record uses its text up. -/
theorem IsSound.exists_of_flushFor (hp : p.IsSound) (line : CatalogLine) :
    ∃ rs : List Record, (p.flushFor line).catalog = rs.foldl Catalog.addRecord p.catalog ∧
      (∀ r ∈ rs, r.msgstr.length ≤ 256) ∧
      ∀ ls, rs.map Record.msgid ++ ((p.flushFor line).draft.msgid? (line :: ls)).toList =
        (p.draft.msgid? (line :: ls)).toList := by
  unfold flushFor
  cases hline : p.closesRecord line with
  | false => exact ⟨[], rfl, nofun, fun ls => rfl⟩
  | true =>
    refine ⟨[p.draft.record], rfl, ?_, ?_⟩
    · intro r hr
      rw [List.mem_singleton.1 hr]
      exact hp.forms
    · intro ls
      rw [hp.msgid?_of_closesRecord hline]
      rfl

/-! ## One line -/

/-- The texts that the records which are closed from here on can have. -/
def owed (p : PartialCatalog) (ls : List CatalogLine) : List String :=
  (p.draft.msgid? ls).toList ++ msgids ls

theorem length_msgstr_changeForm (r : Record) {form : Nat} (hform : form < 256)
    (h : r.msgstr.length ≤ 256) (f : String → String) :
    (r.changeForm form f).msgstr.length ≤ 256 := by
  show ((r.msgstr ++ List.replicate (form + 1 - r.msgstr.length) "").modify form f).length ≤ 256
  rw [List.length_modify, List.length_append, List.length_replicate]
  omega

theorem length_msgstr_setField (r : Record) (h : r.msgstr.length ≤ 256) (value : String)
    (field : Field) : (r.setField value field).msgstr.length ≤ 256 := by
  cases field with
  | msgstr form => exact length_msgstr_changeForm r form.isLt h _
  | _ => exact h

theorem length_msgstr_appendField (r : Record) (h : r.msgstr.length ≤ 256) (value : String)
    (field : Field) : (r.appendField value field).msgstr.length ≤ 256 := by
  cases field with
  | msgstr form => exact length_msgstr_changeForm r form.isLt h _
  | _ => exact h

/-- Beginning a field leaves the text of the record as it was, unless it is the text. -/
theorem msgid?_begin (p : PartialCatalog) {field : Field} (hfield : field ≠ .msgid)
    (value : String) (ls : List CatalogLine) :
    (p.begin field value).draft.msgid? ls = p.draft.msgid? (.field field value :: ls) := by
  have hmsgid : (p.draft.record.setField value field).msgid = p.draft.record.msgid := by
    cases field with
    | msgid => contradiction
    | _ => rfl
  simp [begin, Draft.msgid?, hmsgid, hfield, openStrings]

/-- Closing a record that has a translation leaves one that has none. -/
theorem hasMsgstr_flushIf (p : PartialCatalog) :
    (p.flushIf p.draft.hasMsgstr).draft.hasMsgstr = false := by
  unfold flushIf
  split
  · rfl
  · next h => exact Bool.eq_false_iff.2 h

theorem step_continuation_eq_ok {value : String} (h : p.step (.continuation value) = .ok q) :
    ∃ field, p.draft.openField = some field ∧ q = { p with draft :=
      { p.draft with record := p.draft.record.appendField value field } } := by
  rw [step] at h
  split at h
  · cases h
  · next field hfield =>
    cases h
    exact ⟨field, hfield, rfl⟩

theorem step_msgstr_eq_ok {form : Fin 256} {value : String}
    (h : p.step (.field (.msgstr form) value) = .ok q) :
    p.draft.hasMsgid = true ∧
      q = { p.begin (.msgstr form) value with draft :=
        { (p.begin (.msgstr form) value).draft with hasMsgstr := true } } := by
  rw [step] at h
  split at h
  · next hmsgid =>
    cases h
    exact ⟨hmsgid, rfl⟩
  · cases h

theorem IsSound.step (hp : p.IsSound) (h : p.step line = .ok q) : q.IsSound := by
  -- a comment, a context and a key close the record above if it has a translation
  have hflush := hp.flushIf p.draft.hasMsgstr
  have hnone := hasMsgstr_flushIf p
  cases line with
  | blank =>
    cases h
    exact hp.flushIf _
  | obsolete =>
    cases h
    exact hp
  | comment kind text =>
    cases h
    exact ⟨hflush.hasMsgid, hflush.openField, hflush.forms⟩
  | continuation value =>
    obtain ⟨field, -, rfl⟩ := step_continuation_eq_ok h
    exact ⟨hp.hasMsgid, hp.openField, length_msgstr_appendField _ hp.forms _ _⟩
  | field field value =>
    cases field with
    | msgstr form =>
      obtain ⟨hmsgid, rfl⟩ := step_msgstr_eq_ok h
      -- a translation needs a key above it, and it is the open field then
      exact ⟨fun _ => hmsgid, fun _ => nofun, length_msgstr_setField _ hp.forms _ _⟩
    | msgidPlural =>
      cases h
      exact ⟨hp.hasMsgid, fun _ => nofun, hp.forms⟩
    | msgctxt =>
      cases h
      exact ⟨hflush.hasMsgid, fun _ => nofun, hflush.forms⟩
    | msgid =>
      cases h
      -- after a record is closed there is no translation yet
      exact ⟨fun _ => rfl, fun hmsgstr => (nomatch hnone.symm.trans hmsgstr), hflush.forms⟩

/-- More text in the open field is text that was still to come. -/
theorem msgid?_appendField (d : Draft) {field : Field} (hopen : d.openField = some field)
    (value : String) (ls : List CatalogLine) :
    Draft.msgid? { d with record := d.record.appendField value field } ls =
      d.msgid? (.continuation value :: ls) := by
  by_cases hfield : field = .msgid
  · subst hfield
    simp [Draft.msgid?, hopen, Record.appendField, openStrings, String.append_assoc]
  · have hmsgid : (d.record.appendField value field).msgid = d.record.msgid := by
      cases field with
      | msgid => contradiction
      | _ => rfl
    simp [Draft.msgid?, hopen, hmsgid, hfield]

/-- Once the record above it is closed, a line adds no other text to those that can come than its
own. -/
theorem owed_step (h : p.step line = .ok q) :
    q.catalog = (p.flushFor line).catalog ∧
      ∀ ls, (q.owed ls).Sublist
        (((p.flushFor line).draft.msgid? (line :: ls)).toList ++ msgids (line :: ls)) := by
  cases line with
  | blank =>
    cases h
    have hnone (ls : List CatalogLine) : (p.flushIf p.draft.hasMsgid).draft.msgid? ls = none := by
      unfold flushIf
      split
      · rfl
      · next hmsgid => exact if_neg hmsgid
    refine ⟨rfl, fun ls => ?_⟩
    show ((p.flushIf p.draft.hasMsgid).owed ls).Sublist
      (((p.flushIf p.draft.hasMsgid).draft.msgid? (.blank :: ls)).toList ++ msgids ls)
    simp only [owed, hnone, List.Sublist.refl]
  | obsolete =>
    cases h
    exact ⟨rfl, fun ls => .refl _⟩
  | comment kind text =>
    cases h
    exact ⟨rfl, fun ls => .refl _⟩
  | continuation value =>
    obtain ⟨field, hfield, rfl⟩ := step_continuation_eq_ok h
    refine ⟨rfl, fun ls => ?_⟩
    rw [owed, msgid?_appendField _ hfield]
    exact .refl _
  | field field value =>
    cases field with
    | msgstr form =>
      obtain ⟨-, rfl⟩ := step_msgstr_eq_ok h
      have hfield : Field.msgstr form ≠ .msgid := nofun
      refine ⟨rfl, fun ls => ?_⟩
      show List.Sublist (((p.begin (.msgstr form) value).draft.msgid? ls).toList ++ msgids ls) _
      rw [msgid?_begin p hfield]
      exact .refl _
    | msgidPlural =>
      cases h
      have hfield : Field.msgidPlural ≠ .msgid := nofun
      refine ⟨rfl, fun ls => ?_⟩
      rw [owed, msgid?_begin p hfield]
      exact .refl _
    | msgctxt =>
      cases h
      have hfield : Field.msgctxt ≠ .msgid := nofun
      refine ⟨rfl, fun ls => ?_⟩
      rw [owed, msgid?_begin _ hfield]
      exact .refl _
    | msgid =>
      cases h
      refine ⟨rfl, fun ls => ?_⟩
      -- what was there of a text without translation is given up
      show List.Sublist ((value ++ String.join (openStrings ls)) :: msgids ls) _
      rw [msgids, String.join_cons]
      exact List.sublist_append_right _ _

/-- A line adds the record that it closes, if it closes one, and this has a text that was still to
come. -/
theorem IsSound.exists_of_step (hp : p.IsSound) (h : p.step line = .ok q) :
    ∃ rs : List Record, q.catalog = rs.foldl Catalog.addRecord p.catalog ∧
      (∀ r ∈ rs, r.msgstr.length ≤ 256) ∧
      ∀ ls, (rs.map Record.msgid ++ q.owed ls).Sublist (p.owed (line :: ls)) := by
  obtain ⟨rs, hcatalog, hforms, hmsgids⟩ := hp.exists_of_flushFor line
  obtain ⟨hq, howed⟩ := owed_step h
  refine ⟨rs, hq.trans hcatalog, hforms, fun ls => ?_⟩
  show List.Sublist _ ((p.draft.msgid? (line :: ls)).toList ++ msgids (line :: ls))
  rw [← hmsgids ls, List.append_assoc]
  exact (howed ls).append_left _

/-! ## All lines -/

/-- Lines add records one after the other, and each of these has a text that was still to come. -/
theorem exists_records_of_runs {ls : List CatalogLine} (h : Runs p ls q) (hp : p.IsSound) :
    ∃ rs : List Record,
      (q.flushIf q.draft.hasMsgid).catalog = rs.foldl Catalog.addRecord p.catalog ∧
      (∀ r ∈ rs, r.msgstr.length ≤ 256) ∧ (rs.map Record.msgid).Sublist (p.owed ls) := by
  induction ls generalizing p with
  | nil =>
    -- the end of the text closes a record as a blank line does
    obtain rfl : p = q := Except.ok.inj h
    have hend : p.step .blank = .ok (p.flushIf p.draft.hasMsgid) := rfl
    obtain ⟨rs, hcatalog, hforms, howed⟩ := hp.exists_of_step hend
    exact ⟨rs, hcatalog, hforms, (List.sublist_append_left _ _).trans (howed [])⟩
  | cons line ls ih =>
    rw [Runs, List.foldlM_cons] at h
    obtain ⟨p', hstep, h⟩ := bind_eq_ok_iff.1 h
    obtain ⟨rs, hcatalog, hforms, howed⟩ := hp.exists_of_step hstep
    obtain ⟨more, hmore, hmoreForms, hmoreOwed⟩ := ih h (hp.step hstep)
    refine ⟨rs ++ more, ?_, ?_, ?_⟩
    · rw [hmore, hcatalog, List.foldl_append]
    · intro r hr
      exact (List.mem_append.1 hr).elim (hforms r) (hmoreForms r)
    · rw [List.map_append]
      exact (hmoreOwed.append_left _).trans (howed ls)

/-- Lines that are read are lines that say something each, and these lead to the end. -/
theorem exists_runs_of_readLines {lines : List (List Char)} {n : Nat}
    (h : p.readLines n lines = .ok q) :
    ∃ ls : List CatalogLine, lines.map CatalogLine.ofText = ls.map .ok ∧ Runs p ls q := by
  induction lines generalizing p n with
  | nil =>
    obtain rfl : p = q := Except.ok.inj h
    exact ⟨[], rfl, .nil⟩
  | cons s lines ih =>
    rw [readLines] at h
    split at h
    · next p' hread =>
      obtain ⟨line, hline, hstep⟩ := bind_eq_ok_iff.1 hread
      obtain ⟨ls, hlines, hruns⟩ := ih h
      exact ⟨line :: ls, by rw [List.map_cons, List.map_cons, hline, hlines], .cons hstep hruns⟩
    · cases h

end PartialCatalog

/-! ## Catalogs that are read -/

theorem charset_finish (p : PartialCatalog) : p.finish.charset ≠ "" := by
  show (if (p.flushIf p.draft.hasMsgid).catalog.charset = "" then "utf-8" else _) ≠ ""
  split
  · decide
  · assumption

/-- Whether the text of each record is that of a field `msgid` in a text all of whose lines can be
read: the records are inserted one after the other, each with the text of a field of its own. -/
def Catalog.HasMsgidsOf (c : Catalog) (text : String) : Prop :=
  ∃ ls : List CatalogLine, (Text.lines text.toList).map CatalogLine.ofText = ls.map .ok ∧
    (∀ {context msgid r}, c.Stores context msgid r → r.msgid ∈ msgids ls) ∧
    ∃ rs : List Record, c.translations = (rs.foldl Catalog.insert .empty).translations ∧
      (rs.map Record.msgid).Sublist (msgids ls)

/-- A catalog that is read is consistent, and so it is when records are inserted into it. Each of
its records has its text from a field `msgid` that was read. -/
theorem isConsistent_of_parse {text : String} {c : Catalog} (h : Catalog.parse text = .ok c) :
    (∀ rs : List Record, (∀ r ∈ rs, r.msgstr.length ≤ 256) →
      (rs.foldl Catalog.insert c).IsConsistent) ∧ c.HasMsgidsOf text := by
  obtain ⟨q, hread, rfl⟩ := map_eq_ok_iff.1 h
  obtain ⟨ls, hlines, hruns⟩ := PartialCatalog.exists_runs_of_readLines hread
  -- the catalog is that of the records that were closed, and each got its key from a line
  obtain ⟨rs, hcatalog, hforms, hmsgids⟩ :=
    PartialCatalog.exists_records_of_runs hruns (PartialCatalog.isSound_blank .empty)
  have htranslations : q.finish.translations = (rs.foldl Catalog.insert .empty).translations := by
    show (q.flushIf q.draft.hasMsgid).catalog.translations = _
    rw [hcatalog]
    exact translations_foldl_addRecord rs rfl
  constructor
  · intro more hmore
    have hfiled := (Catalog.IsFiled.empty.foldl_insert hforms).congr htranslations
    refine ⟨hfiled.foldl_insert hmore, ?_⟩
    rw [Catalog.charset_foldl_insert]
    exact charset_finish q
  · refine ⟨ls, hlines, fun hs => ?_, rs, htranslations, hmsgids⟩
    rw [Catalog.stores_congr htranslations] at hs
    have hmem := (Catalog.mem_of_stores_foldl hs).resolve_right Catalog.not_stores_empty
    exact hmsgids.subset (List.mem_map_of_mem hmem)

/-- A file in a menu, its text in two strings around a comment, and only the third form of it. -/
def thirdFormText : String :=
  "msgctxt \"menu\"\nmsgid \"fi\"\n# of a disk\n\"le\"\nmsgid_plural \"files\"\n" ++
    "msgstr[2] \"fichiers\"\n"

/-- The catalog of it. -/
def thirdFormCatalog : Catalog :=
  { Catalog.empty.insert
      ⟨some "menu", "file", some "files", ["", "", "fichiers"], ⟨["of a disk"], [], [], [], []⟩⟩
    with charset := "utf-8" }

/-- It is consistent, also when another translation of the text is inserted. -/
theorem isConsistent_of_parse_thirdForm :
    Catalog.parse thirdFormText = .ok thirdFormCatalog ∧
    (thirdFormCatalog.insert ⟨some "menu", "file", none, ["Fichier"], .empty⟩).IsConsistent ∧
    thirdFormCatalog.HasMsgidsOf thirdFormText := by
  have hparse : Catalog.parse thirdFormText = .ok thirdFormCatalog := by decide +kernel
  obtain ⟨hinsert, hmsgids⟩ := isConsistent_of_parse hparse
  exact ⟨hparse, hinsert [⟨some "menu", "file", none, ["Fichier"], .empty⟩] (by simp), hmsgids⟩

end FluentMerge
