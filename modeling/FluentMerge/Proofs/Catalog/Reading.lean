import FluentMerge.Catalog.Parser
import FluentMerge.Proofs.Catalog.FoundRecords
import FluentMerge.Proofs.Catalog.Writing

/-!
# Reading a written catalog

Records that are written as a catalog are read back: the catalog of the text is the one into which
the records are added in order (`parse_of_writesRecords`), so it finds under each context and text
the last record with them (`translations_of_writesRecords`).

What carries the argument is that a record that has been read to its end is not in the catalog yet.
`Settles` says which catalog it will be, and every line that can stand next brings it there.
-/

namespace FluentMerge

/-! ## Fields -/

namespace Record

/-- More text in a field that has been set. -/
theorem appendField_setField (r : Record) (field : Field) (v w : String) :
    (r.setField v field).appendField w field = r.setField (v ++ w) field := by
  cases field with
  | msgctxt => rfl
  | msgid => rfl
  | msgidPlural => rfl
  | msgstr form =>
    have hlength : form.val + 1 - (r.changeForm form.val fun _ => v).msgstr.length = 0 := by
      rw [changeForm, List.length_modify, List.length_append, List.length_replicate]
      omega
    rw [setField, setField, appendField, changeForm, hlength, List.replicate_zero, List.append_nil,
      changeForm, changeForm, List.modify_modify_eq]
    rfl

/-- A translation behind those that there are. -/
theorem setField_msgstr_length (r : Record) (v : String) {n : Nat} (hn : n < 256)
    (hlength : r.msgstr.length = n) :
    r.setField v (.msgstr ⟨n, hn⟩) = { r with msgstr := r.msgstr ++ [v] } := by
  subst hlength
  simp [setField, changeForm, List.modify_eq_set]

end Record

namespace PartialCatalog

/-! ## Runs -/

/-- Whether the lines lead from `p` to `q`. -/
def Runs (p : PartialCatalog) (ls : List CatalogLine) (q : PartialCatalog) : Prop :=
  ls.foldlM step p = .ok q

variable {p q r : PartialCatalog}

theorem Runs.nil : Runs p [] p := rfl

theorem Runs.cons {line : CatalogLine} {ls : List CatalogLine} (hline : p.step line = .ok q)
    (h : Runs q ls r) : Runs p (line :: ls) r := by
  rw [Runs, List.foldlM_cons, hline]
  exact h

/-- Lines are read one after the other, so runs are put together. -/
theorem Runs.append {ls below : List CatalogLine} (h : Runs p ls q) (hbelow : Runs q below r) :
    Runs p (ls ++ below) r := by
  rw [Runs, List.foldlM_append, h]
  exact hbelow

/-- Lines of entries no longer in use change nothing. -/
theorem Runs.of_filter {ls : List CatalogLine} (h : Runs p (ls.filter (· ≠ .obsolete)) q) :
    Runs p ls q := by
  induction ls generalizing p with
  | nil => exact h
  | cons line ls ih =>
    by_cases hline : line = .obsolete
    · subst hline
      exact .cons rfl (ih h)
    · rw [List.filter_cons_of_pos (by simpa using hline), Runs, List.foldlM_cons] at h
      rw [Runs, List.foldlM_cons]
      cases hstep : p.step line with
      | error fault =>
        rw [hstep] at h
        cases h
      | ok p' =>
        rw [hstep] at h
        exact ih h

/-- Lines are read by what they say. -/
theorem Runs.readLines {ls : List CatalogLine} {lines : List (List Char)}
    (hlines : lines.map CatalogLine.ofText = ls.map .ok) (h : Runs p ls q) (n : Nat) :
    p.readLines n lines = .ok q := by
  induction lines generalizing ls p n with
  | nil =>
    obtain rfl : ls = [] := by simpa using hlines.symm
    obtain rfl : p = q := Except.ok.inj h
    rfl
  | cons s lines ih =>
    cases ls with
    | nil => cases hlines
    | cons line ls =>
      obtain ⟨hline, hlines⟩ := List.cons.inj hlines
      rw [Runs, List.foldlM_cons] at h
      cases hstep : p.step line with
      | error fault =>
        rw [hstep] at h
        cases h
      | ok p' =>
        rw [hstep] at h
        have hread : p.readLine s = .ok p' := by
          rw [readLine, hline]
          exact hstep
        rw [PartialCatalog.readLines, hread]
        exact ih hlines h (n + 1)

/-! ## One field -/

/-- Whether a field can begin in the record that is being read. -/
def Accepts (p : PartialCatalog) : Field → Prop
  | .msgctxt | .msgid => p.draft.hasMsgstr = false
  | .msgidPlural => True
  | .msgstr _ => p.draft.hasMsgid = true

/-- The state with a field that has begun in it. -/
def withField (p : PartialCatalog) (field : Field) (value : String) : PartialCatalog :=
  ⟨p.catalog,
    { record := p.draft.record.setField value field
      hasMsgid := p.draft.hasMsgid || field == .msgid
      hasMsgstr := p.draft.hasMsgstr || field matches .msgstr _
      openField := some field }⟩

/-- A field is taken where the record that is being read can have it. -/
theorem step_field {field : Field} (h : p.Accepts field) (value : String) :
    p.step (.field field value) = .ok (p.withField field value) := by
  cases field with
  | msgctxt => simp_all [Accepts, step, flushIf, begin, withField]
  | msgid => simp_all [Accepts, step, flushIf, begin, withField]
  | msgidPlural => simp [step, begin, withField]
  | msgstr form => simp_all [Accepts, step, begin, withField]

/-- A string on its own goes on with the field above it. -/
theorem step_continuation (field : Field) (v w : String) :
    (p.withField field v).step (.continuation w) = .ok (p.withField field (v ++ w)) := by
  simp [step, withField, Record.appendField_setField]

/-- However a text is cut into strings, the field has it as a whole. The induction is on the strings
below the first, with what is already read as a variable. -/
theorem runs_fieldLines {field : Field} {value : String} {ls : List CatalogLine}
    (h : FieldLines field value ls) (hp : p.Accepts field) :
    Runs p ls (p.withField field value) := by
  have hmore (more : List String) (v : String) : Runs (p.withField field v)
      (more.map .continuation) (p.withField field (v ++ String.join more)) := by
    induction more generalizing v with
    | nil =>
      rw [String.join_nil, String.append_empty]
      exact .nil
    | cons w more ih =>
      rw [String.join_cons, ← String.append_assoc]
      exact .cons (step_continuation field v w) (ih (v ++ w))
  obtain ⟨first, more, rfl⟩ := h
  rw [String.join_cons]
  exact .cons (step_field hp first) (hmore more first)

/-- The state with a field that has begun in it, if there is one. -/
def withOption (p : PartialCatalog) (field : Field) : Option String → PartialCatalog
  | none => p
  | some value => p.withField field value

/-- A field that is missing leaves no line, and its record is read on without it. -/
theorem runs_optionLines {field : Field} {value : Option String} {ls : List CatalogLine}
    (h : OptionLines field value ls) (hp : p.Accepts field) :
    Runs p ls (p.withOption field value) := by
  cases h with
  | none => exact .nil
  | some h => exact runs_fieldLines h hp

/-! ## One record -/

/-- Whether a record has been read to its end, and only has to be closed. -/
structure IsComplete (p : PartialCatalog) (c : Catalog) (r : Record) : Prop where
  catalog : p.catalog = c
  record : p.draft.record = r
  hasMsgid : p.draft.hasMsgid = true
  hasMsgstr : p.draft.hasMsgstr = true

variable {c : Catalog} {record : Record}

/-- One more translation of a record. -/
theorem isComplete_withField {n : Nat} (hn : n < 256) (hcatalog : p.catalog = c)
    (hrecord : p.draft.record = record) (hmsgid : p.draft.hasMsgid = true)
    (hlength : record.msgstr.length = n) (value : String) :
    (p.withField (.msgstr ⟨n, hn⟩) value).IsComplete c
      { record with msgstr := record.msgstr ++ [value] } where
  catalog := hcatalog
  record := by rw [← Record.setField_msgstr_length record value hn hlength, ← hrecord]; rfl
  hasMsgid := by simp [withField, hmsgid]
  hasMsgstr := by simp [withField]

/-- The translations of a record are read in the order of their numbers, each at the end of those
before. -/
theorem IsComplete.runs_formLines {n : Nat} {values : List String} {ls : List CatalogLine}
    (h : FormLines n values ls) (hp : p.IsComplete c record) (hlength : record.msgstr.length = n) :
    ∃ q, Runs p ls q ∧ q.IsComplete c { record with msgstr := record.msgstr ++ values } := by
  induction h generalizing p record with
  | nil => exact ⟨p, .nil, by rwa [List.append_nil]⟩
  | @cons n hn value values ls below hfield _ ih =>
    have hnext := isComplete_withField hn hp.catalog hp.record hp.hasMsgid hlength value
    obtain ⟨q, hq, hcomplete⟩ := ih hnext (by simp [hlength])
    refine ⟨q, (runs_fieldLines hfield hp.hasMsgid).append hq, ?_⟩
    rwa [List.append_assoc] at hcomplete

/-- The state with comments on the record that is being read. -/
def withNotes (p : PartialCatalog) (notes : Notes) : PartialCatalog :=
  { p with draft := { p.draft with record := { p.draft.record with comments := notes } } }

/-- Comments above a record are collected for it as long as no translation is read. -/
theorem runs_notes (hp : p.draft.hasMsgstr = false) (notes : List (NoteKind × String)) :
    Runs p (notes.map fun note => .comment note.1 note.2)
      (p.withNotes (notes.foldl (fun n note => n.add note.2 note.1) p.draft.record.comments)) := by
  induction notes generalizing p with
  | nil => exact .nil
  | cons note notes ih =>
    have hstep : p.step (.comment note.1 note.2) =
        .ok (p.withNotes (p.draft.record.comments.add note.2 note.1)) := by
      simp [step, flushIf, hp, withNotes]
    exact .cons hstep (ih (p := p.withNotes (p.draft.record.comments.add note.2 note.1)) hp)

/-- The lines of a record are read as this record. -/
theorem runs_recordLines {ls : List CatalogLine} (h : RecordLines record ls) :
    ∃ q, Runs ⟨c, .blank⟩ ls q ∧ q.IsComplete c record := by
  obtain @⟨notes, msgctxt, plural, msgid, msgstr, more, ls₁, ls₂, ls₃, _, hctxt, hid, hplural,
    hforms⟩ := h
  obtain _ | @⟨_, hn, _, _, ls₄, below, hform, hmore⟩ := hforms
  -- the states after the comments, the context, and the text with its plural
  let start : PartialCatalog := ⟨c, .blank⟩
  let withCtxt := (start.withNotes (.ofLines notes)).withOption .msgctxt msgctxt
  let withPlural := (withCtxt.withField .msgid msgid).withOption .msgidPlural plural
  have hnotes : Runs start _ (start.withNotes (.ofLines notes)) := runs_notes rfl notes
  have hmsgstr : withCtxt.draft.hasMsgstr = false := by cases msgctxt <;> rfl
  have hmsgid : withPlural.draft.hasMsgid = true := by
    cases plural <;> simp [withPlural, withOption, withField]
  have hcatalog : withPlural.catalog = c := by cases msgctxt <;> cases plural <;> rfl
  have hrecord : withPlural.draft.record = ⟨msgctxt, msgid, plural, [], .ofLines notes⟩ := by
    cases msgctxt <;> cases plural <;> rfl
  have hfirst := isComplete_withField hn hcatalog hrecord hmsgid rfl msgstr
  obtain ⟨q, hq, hcomplete⟩ := hfirst.runs_formLines hmore rfl
  refine ⟨q, ?_, hcomplete⟩
  have hctxt := runs_optionLines (p := start.withNotes (.ofLines notes)) hctxt rfl
  exact hnotes.append <| hctxt.append <|
    (runs_fieldLines hid hmsgstr).append <| (runs_optionLines hplural trivial).append <|
      (runs_fieldLines hform hmsgid).append hq

/-! ## One record after the other -/

/-- Whether `c` is the catalog when the record that is being read is closed: nothing of it has come
yet, or all of it has. -/
inductive Settles : PartialCatalog → Catalog → Prop
  | blank (c : Catalog) : Settles ⟨c, .blank⟩ c
  | complete {p : PartialCatalog} {c : Catalog} {record : Record} : p.IsComplete c record →
      Settles p (c.addRecord record)

/-- A complete record is added to the catalog, and nothing of it is left. -/
theorem IsComplete.flush_eq (h : p.IsComplete c record) :
    p.flush = ⟨c.addRecord record, .blank⟩ := by
  rw [flush, h.catalog, h.record]

/-- Where reading settles on a catalog, closing what is open comes to this catalog. -/
theorem Settles.flushIf_hasMsgid (h : p.Settles c) : p.flushIf p.draft.hasMsgid = ⟨c, .blank⟩ := by
  cases h with
  | blank => rfl
  | complete h =>
    rw [h.hasMsgid]
    exact h.flush_eq

theorem Settles.flushIf_hasMsgstr (h : p.Settles c) :
    p.flushIf p.draft.hasMsgstr = ⟨c, .blank⟩ := by
  cases h with
  | blank => rfl
  | complete h =>
    rw [h.hasMsgstr]
    exact h.flush_eq

/-- Whether a line can be the first of a record. -/
def opensRecord : CatalogLine → Prop
  | .comment _ _ | .field .msgctxt _ | .field .msgid _ => True
  | _ => False

/-- A record begins with a comment, a context or a key, whichever of these it has first. -/
theorem opensRecord_head {ls : List CatalogLine} (h : RecordLines record ls) :
    ∃ line below, ls = line :: below ∧ opensRecord line := by
  obtain ⟨_ | ⟨note, notes⟩, hctxt, hid, -, -⟩ := h
  · cases hctxt with
    | none =>
      obtain ⟨first, more, -⟩ := hid
      exact ⟨_, _, rfl, trivial⟩
    | some hctxt =>
      obtain ⟨first, more, -⟩ := hctxt
      exact ⟨_, _, rfl, trivial⟩
  · exact ⟨_, _, rfl, trivial⟩

/-- The first line of a record closes the record above it. -/
theorem Settles.step_eq (h : p.Settles c) {line : CatalogLine} (hline : opensRecord line) :
    p.step line = step ⟨c, .blank⟩ line := by
  have hstart := (Settles.blank c).flushIf_hasMsgstr
  cases line with
  | comment kind text => rw [step, step, h.flushIf_hasMsgstr, hstart]
  | field field value =>
    cases field with
    | msgctxt => rw [step, step, h.flushIf_hasMsgstr, hstart]
    | msgid => rw [step, step, h.flushIf_hasMsgstr, hstart]
    | msgidPlural => exact hline.elim
    | msgstr form => exact hline.elim
  | blank => exact hline.elim
  | obsolete => exact hline.elim
  | continuation value => exact hline.elim

/-- The run over all records, from the first on. What is settled on grows by one record each time.
-/
theorem Settles.runs_recordsLines {rs : List Record} {ls : List CatalogLine}
    (h : RecordsLines rs ls) (hp : p.Settles c) :
    ∃ q, Runs p ls q ∧ q.Settles (rs.foldl Catalog.addRecord c) := by
  induction h generalizing p c with
  | nil => exact ⟨p, .nil, hp⟩
  | blank _ ih =>
    -- a blank line closes the record, and another one finds nothing to close
    obtain ⟨q, hq, hsettles⟩ := ih (Settles.blank c)
    have hstep : p.step .blank = .ok ⟨c, .blank⟩ := by rw [step, hp.flushIf_hasMsgid]
    exact ⟨q, .cons hstep hq, hsettles⟩
  | @record record rs ls below hrecord _ ih =>
    -- the record above is closed by the first line, from where this one is read as from the start
    obtain ⟨p', hp', hcomplete⟩ := runs_recordLines (c := c) hrecord
    obtain ⟨q, hq, hsettles⟩ := ih (Settles.complete hcomplete)
    obtain ⟨line, ls, rfl, hopens⟩ := opensRecord_head hrecord
    have hruns : Runs p (line :: ls) p' := by
      rwa [Runs, List.foldlM_cons, hp.step_eq hopens, ← List.foldlM_cons]
    exact ⟨q, hruns.append hq, hsettles⟩

theorem Settles.finish_eq (h : p.Settles c) : p.finish = finish ⟨c, .blank⟩ := by
  rw [finish, finish, h.flushIf_hasMsgid, (Settles.blank c).flushIf_hasMsgid]

end PartialCatalog

/-! ## Catalogs -/

/-- A written catalog is read as the one to which its records are added in order. -/
theorem parse_of_writesRecords {rs : List Record} {text : String} (h : WritesRecords rs text) :
    Catalog.parse text =
      .ok (PartialCatalog.finish ⟨rs.foldl Catalog.addRecord .empty, .blank⟩) := by
  obtain ⟨ls, hrecords, hlines⟩ := h
  obtain ⟨q, hruns, hsettles⟩ :=
    (PartialCatalog.Settles.blank Catalog.empty).runs_recordsLines hrecords
  have hread := hruns.of_filter.readLines (lines_of_writesLines hlines) 1
  rw [Catalog.parse, PartialCatalog.start, hread, ← hsettles.finish_eq]
  rfl

/-- Headers aside, a record that is added is inserted. -/
theorem translations_addRecord (c : Catalog) (r : Record) :
    (c.addRecord r).translations = (c.insert r).translations := by
  rw [Catalog.addRecord]
  split <;> rfl

/-- Records of a header are added like all others, whatever they say of the charset. -/
theorem translations_foldl_addRecord (rs : List Record) {c d : Catalog}
    (h : c.translations = d.translations) :
    (rs.foldl Catalog.addRecord c).translations = (rs.foldl Catalog.insert d).translations := by
  induction rs generalizing c d with
  | nil => exact h
  | cons r rs ih =>
    apply ih
    rw [translations_addRecord, Catalog.insert, Catalog.insert, Catalog.context?,
      Catalog.context?, h]

end FluentMerge
