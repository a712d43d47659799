import FluentMerge.Catalog.Basic

/-!
# Found records

What a catalog holds is known by what is found in it under each context and text
(`Catalog.translations_eq`), if no context is without records. Of the records that are inserted with
one context and one text the last is found (`Catalog.record?_foldl_insert`), and every context that
is there has a record then (`Catalog.context?_foldl_insert_ne`).
-/

namespace FluentMerge.Catalog

variable {c d : Catalog}

/-! ## One place -/

/-- The record under a context and a text. -/
def record? (c : Catalog) (context msgid : String) : Option Record :=
  (c.context? context).bind (·[msgid]?)

/-- A context that is not there is as one without records. -/
theorem record?_eq (c : Catalog) (context msgid : String) :
    c.record? context msgid = ((c.context? context).getD ∅)[msgid]? := by
  unfold record?
  cases c.context? context with
  | none => simp
  | some t => rfl

theorem context?_empty_ne (name : String) : empty.context? name ≠ some ∅ := by
  simp [context?, empty]

/-- A record that is inserted is found at its place, and nothing else changes. -/
theorem record?_insert (c : Catalog) (r : Record) (context msgid : String) :
    (c.insert r).record? context msgid =
      if r.context = context ∧ r.msgid = msgid then some r else c.record? context msgid :=
  getElem?_insert c r context msgid

/-- A record is inserted into a context that has it then. -/
theorem context?_insert_ne (h : ∀ name, c.context? name ≠ some ∅) (r : Record) (name : String) :
    (c.insert r).context? name ≠ some ∅ := by
  rw [context?, insert, Std.ExtTreeMap.getElem?_insert]
  split
  · intro hnone
    exact Std.ExtTreeMap.insert_ne_empty (Option.some.inj hnone)
  · exact h name

/-! ## One after the other -/

/-- The last of the records with this context and this text. -/
def lastRecord? (rs : List Record) (context msgid : String) : Option Record :=
  rs.reverse.find? fun r => r.context = context ∧ r.msgid = msgid

/-- A record counts where none of those after it has its context and text. -/
theorem lastRecord?_cons (r : Record) (rs : List Record) (context msgid : String) :
    lastRecord? (r :: rs) context msgid = (lastRecord? rs context msgid).or
      (if r.context = context ∧ r.msgid = msgid then some r else none) := by
  rw [lastRecord?, List.reverse_cons, List.find?_append, ← lastRecord?, List.find?_singleton]
  simp only [decide_eq_true_eq]

theorem lastRecord?_eq_none_iff {rs : List Record} {context msgid : String} :
    lastRecord? rs context msgid = none ↔ ∀ s ∈ rs, ¬(s.context = context ∧ s.msgid = msgid) := by
  simp [lastRecord?]

/-- Of the records that are inserted the last one counts. -/
theorem record?_foldl_insert (c : Catalog) (rs : List Record) (context msgid : String) :
    (rs.foldl insert c).record? context msgid =
      (lastRecord? rs context msgid).or (c.record? context msgid) := by
  induction rs generalizing c with
  | nil => rfl
  | cons r rs ih =>
    rw [List.foldl_cons, ih, record?_insert, lastRecord?_cons, Option.or_assoc]
    split <;> rfl

theorem context?_foldl_insert_ne (h : ∀ name, c.context? name ≠ some ∅) (rs : List Record)
    (name : String) : (rs.foldl insert c).context? name ≠ some ∅ := by
  induction rs generalizing c with
  | nil => exact h name
  | cons r rs ih => exact ih (context?_insert_ne h r)

/-! ## Everything that is found -/

/-- Which records there are is a matter of those that are found, when no context is without. -/
theorem translations_eq (hc : ∀ name, c.context? name ≠ some ∅)
    (hd : ∀ name, d.context? name ≠ some ∅)
    (h : ∀ context msgid, c.record? context msgid = d.record? context msgid) :
    c.translations = d.translations := by
  apply Std.ExtTreeMap.ext_getElem?
  intro name
  have hrecords : (c.context? name).getD ∅ = (d.context? name).getD ∅ := by
    apply Std.ExtTreeMap.ext_getElem?
    intro msgid
    rw [← record?_eq, ← record?_eq, h]
  show c.context? name = d.context? name
  specialize hc name
  specialize hd name
  cases hx : c.context? name <;> cases hy : d.context? name <;> simp_all [eq_comm]

end FluentMerge.Catalog
