import FluentMerge.Proofs.Catalog.Consistency

/-!
# The records that lines close

Lines close records one after the other, and the catalog that is read is made of these
(`catalog_of_runs`, `madeOf_finish`). Which records they are is a matter of the record that is being
read and of the lines, not of the catalog above (`closed_congr`). A catalog is known by its header
and by what is found in it (`eq_of_record?`).
-/

namespace FluentMerge

/-! ## Catalogs with the same header -/

namespace Catalog

variable {c d : Catalog} {r : Record}

/-- Whether two catalogs have the same header fields and the same charset. -/
structure SameHeader (c d : Catalog) : Prop where
  charset : c.charset = d.charset
  headers : c.headers = d.headers

/-- What a record says of the header is in its translations. Its comments say nothing of it. -/
theorem SameHeader.addRecord (h : c.SameHeader d) (r : Record) (notes : Notes) :
    (c.addRecord r).SameHeader (d.addRecord { r with comments := notes }) := by
  obtain ⟨charset, headers, records⟩ := c
  obtain ⟨hcharset, hheaders⟩ := h
  obtain rfl : charset = d.charset := hcharset
  obtain rfl : headers = d.headers := hheaders
  show SameHeader (insert (if r.isHeader then _ else _) _)
    (insert (if r.isHeader then _ else _) _)
  split <;> exact ⟨rfl, rfl⟩

theorem SameHeader.foldl_addRecord (h : c.SameHeader d) (rs : List Record) :
    (rs.foldl Catalog.addRecord c).SameHeader (rs.foldl Catalog.addRecord d) := by
  induction rs generalizing c d with
  | nil => exact h
  | cons r rs ih => exact ih (h.addRecord r r.comments)

/-- Catalogs with the same header and the same records are the same. -/
theorem eq_of_record? (hheader : c.SameHeader d) (hc : ∀ name, c.context? name ≠ some ∅)
    (hd : ∀ name, d.context? name ≠ some ∅)
    (h : ∀ context msgid, c.record? context msgid = d.record? context msgid) : c = d := by
  obtain ⟨charset, headers, records⟩ := c
  obtain ⟨charset', headers', records'⟩ := d
  obtain ⟨hcharset, hheaders⟩ := hheader
  obtain rfl : charset = charset' := hcharset
  obtain rfl : headers = headers' := hheaders
  obtain rfl : records = records' := translations_eq hc hd h
  rfl

/-- Putting a record where it already stands changes nothing. -/
theorem insert_eq_self (hc : ∀ name, c.context? name ≠ some ∅)
    (h : c.Stores r.context r.msgid r) : c.insert r = c := by
  have hheader : (c.insert r).SameHeader c := ⟨rfl, rfl⟩
  apply eq_of_record? hheader (context?_insert_ne hc r) hc
  intro context msgid
  rw [record?_insert]
  split
  · next hplace =>
    rw [← hplace.1, ← hplace.2]
    exact h.symm
  · rfl

/-- Whether the records of `c` are those of `base` and the records `rs`, the last ones standing. -/
structure MadeOf (base : Catalog) (rs : List Record) (c : Catalog) : Prop where
  contexts : ∀ name, c.context? name ≠ some ∅
  record? : ∀ context msgid,
    c.record? context msgid = (lastRecord? rs context msgid).or (base.record? context msgid)

end Catalog

/-! ## Closed records -/

namespace PartialCatalog

variable {p q r : PartialCatalog} {line : CatalogLine} {ls above below : List CatalogLine}

/-- The record that a line closes, if it closes one. -/
def closedBy (p : PartialCatalog) (line : CatalogLine) : List Record :=
  if p.closesRecord line then [p.draft.record] else []

/-- The records that are closed when lines are read from `p` on, in order. The end of the lines
closes one as a blank line does. -/
def closed (p : PartialCatalog) : List CatalogLine → List Record
  | [] => p.closedBy .blank
  | line :: ls => p.closedBy line ++
    match p.step line with
    | .ok q => q.closed ls
    | .error _ => []

theorem closed_cons (h : p.step line = .ok q) :
    p.closed (line :: ls) = p.closedBy line ++ q.closed ls := by
  rw [closed, h]

/-- A step adds to the catalog the record that its line closes, and nothing else. -/
theorem catalog_of_step (h : p.step line = .ok q) :
    q.catalog = (p.closedBy line).foldl Catalog.addRecord p.catalog := by
  rw [(owed_step h).1, flushFor, closedBy]
  cases p.closesRecord line <;> rfl

/-- The catalog is made of the records that are closed. -/
theorem catalog_of_runs (h : Runs p ls q) :
    (q.flushIf q.draft.hasMsgid).catalog = (p.closed ls).foldl Catalog.addRecord p.catalog := by
  induction ls generalizing p with
  | nil =>
    obtain rfl : p = q := Except.ok.inj h
    have hend : p.step .blank = .ok (p.flushIf p.draft.hasMsgid) := rfl
    exact catalog_of_step hend
  | cons line ls ih =>
    rw [Runs, List.foldlM_cons] at h
    obtain ⟨p', hstep, h⟩ := bind_eq_ok_iff.1 h
    rw [ih h, catalog_of_step hstep, closed_cons hstep, List.foldl_append]

/-- What a line makes of the record that is being read is the same whatever the catalog above. -/
theorem exists_step_of_draft (h : p.step line = .ok q) (c : Catalog) :
    ∃ d, step ⟨c, p.draft⟩ line = .ok ⟨d, q.draft⟩ := by
  obtain ⟨c', record, hasMsgid, hasMsgstr, openField⟩ := p
  cases line with
  | blank =>
    cases h
    -- whether the record is closed is known by the record alone
    cases hasMsgid <;> exact ⟨_, rfl⟩
  | obsolete =>
    cases h
    exact ⟨_, rfl⟩
  | comment kind text =>
    cases h
    cases hasMsgstr <;> exact ⟨_, rfl⟩
  | continuation value =>
    -- a line that can be refused is refused for what this record lacks
    obtain ⟨field, hopen, rfl⟩ := step_continuation_eq_ok h
    obtain rfl : openField = some field := hopen
    exact ⟨_, rfl⟩
  | field field value =>
    cases field with
    | msgctxt =>
      cases h
      cases hasMsgstr <;> exact ⟨_, rfl⟩
    | msgid =>
      cases h
      cases hasMsgstr <;> exact ⟨_, rfl⟩
    | msgidPlural =>
      cases h
      exact ⟨_, rfl⟩
    | msgstr form =>
      obtain ⟨hmsgid, rfl⟩ := step_msgstr_eq_ok h
      obtain rfl : hasMsgid = true := hmsgid
      exact ⟨_, rfl⟩

theorem closedBy_congr (h : p.draft = q.draft) (line : CatalogLine) :
    p.closedBy line = q.closedBy line := by
  obtain ⟨c, draft⟩ := p
  obtain rfl : draft = q.draft := h
  rfl

/-- Which records are closed is a matter of the record that is being read and of the lines. -/
theorem closed_congr (h : p.draft = q.draft) (hruns : Runs p ls r) :
    (∃ r', Runs q ls r') ∧ q.closed ls = p.closed ls := by
  induction ls generalizing p q with
  | nil => exact ⟨⟨q, .nil⟩, (closedBy_congr h .blank).symm⟩
  | cons line ls ih =>
    rw [Runs, List.foldlM_cons] at hruns
    obtain ⟨p', hstep, hruns⟩ := bind_eq_ok_iff.1 hruns
    obtain ⟨d, hstep'⟩ := exists_step_of_draft hstep q.catalog
    rw [h] at hstep'
    obtain ⟨⟨r', hruns'⟩, hclosed⟩ := ih (p := p') (q := ⟨d, p'.draft⟩) rfl hruns
    refine ⟨⟨r', .cons hstep' hruns'⟩, ?_⟩
    rw [closed_cons hstep, closed_cons hstep', hclosed, closedBy_congr h]

theorem runs_append_iff : Runs p (above ++ below) r ↔ ∃ q, Runs p above q ∧ Runs q below r := by
  rw [Runs, List.foldlM_append]
  exact bind_eq_ok_iff

/-- A context comes into the catalog with a record, so none is ever empty. -/
theorem contexts_of_runs (hp : ∀ name, p.catalog.context? name ≠ some ∅) (h : Runs p ls q) :
    ∀ name, q.catalog.context? name ≠ some ∅ := by
  induction ls generalizing p with
  | nil =>
    obtain rfl : p = q := Except.ok.inj h
    exact hp
  | cons line ls ih =>
    rw [Runs, List.foldlM_cons] at h
    obtain ⟨p', hstep, h⟩ := bind_eq_ok_iff.1 h
    refine ih (fun name => ?_) h
    rw [catalog_of_step hstep, Catalog.context?, translations_foldl_addRecord _ rfl]
    exact Catalog.context?_foldl_insert_ne hp _ name

/-- What is read at the end is made of the records that have been closed. -/
theorem madeOf_finish (hp : ∀ name, p.catalog.context? name ≠ some ∅) (h : Runs p ls q) :
    p.catalog.MadeOf (p.closed ls) q.finish := by
  have hrecords : q.finish.translations =
      ((p.closed ls).foldl Catalog.insert p.catalog).translations := by
    rw [← translations_foldl_addRecord _ rfl, ← catalog_of_runs h]
    rfl
  constructor
  · intro name
    rw [Catalog.context?, hrecords]
    exact Catalog.context?_foldl_insert_ne hp _ name
  · intro context msgid
    rw [← Catalog.record?_foldl_insert, Catalog.record?, Catalog.record?, Catalog.context?,
      Catalog.context?, hrecords]

/-- The end of a catalog names a charset where the header has none, and changes nothing else. -/
theorem sameHeader_finish
    (h : (p.flushIf p.draft.hasMsgid).catalog.SameHeader (q.flushIf q.draft.hasMsgid).catalog) :
    p.finish.SameHeader q.finish where
  charset := by rw [finish, finish, h.charset]
  headers := h.headers

end PartialCatalog

end FluentMerge
