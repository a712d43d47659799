import FluentMerge.Proofs.Document.Layout
import FluentMerge.Proofs.Document.Outcome

/-!
# What holds of every entry

A property of entries that does not depend on where they stand holds of all entries of a document
when it holds of junk and of what is read as one entry, and when an entry keeps it as it gets the
comment above it (`forall_mem_parse`). A property of attributes holds of all those of an entry when
it holds of what is read as one (`forall_mem_attributes`).
-/

namespace FluentMerge

open Read

/-- Each attribute is read by `definition`, behind its point. The induction is on the length of the
text, which every attribute shortens. -/
theorem forall_mem_attributes {P : Attribute → Prop}
    (hread : ∀ t id value rest, outcome (definition t) = .ok ((id, some value), rest) →
      P ⟨id, value⟩) {s rest : List Char} {attributes : List Attribute}
    (h : outcome (Read.attributes s) = .ok (attributes, rest)) : ∀ a ∈ attributes, P a := by
  induction hn : s.length using Nat.strongRecOn generalizing s attributes with
  | ind n ih =>
    subst hn
    rw [outcome_attributes] at h
    split at h
    · next t ht =>
      obtain ⟨⟨⟨id, value⟩, u⟩, hfirst, h⟩ := bind_eq_ok_iff.1 h
      cases value with
      | none => cases h
      | some value =>
        obtain ⟨⟨others, v⟩, hothers, h⟩ := map_eq_ok_iff.1 h
        cases h
        -- the point in front of the attribute is gone
        have hshorter : u.length < s.length := by
          have hle := (skipBlank_suffix s).length_le
          rw [ht, List.length_cons] at hle
          exact Nat.lt_of_lt_of_le (Nat.lt_succ_of_le (outcome_suffix hfirst).length_le) hle
        exact List.forall_mem_cons.2
          ⟨hread t id value u hfirst, ih u.length hshorter hothers rfl⟩
    · cases h
      simp

variable {P : Entry → Prop}

/-- The next entry is one that was read, at its place, or junk with one annotation. -/
theorem nextEntry_of_forall {s : List Char}
    (hread : ∀ e rest span, outcome (entry s) = .ok (e, rest) → P (e.withSpan span))
    (hjunk : ∀ content reason span, P (.junk ⟨content, [reason], some span⟩)) (start : Nat) :
    P (nextEntry start s).1 := by
  unfold nextEntry
  split
  · next r h =>
    obtain ⟨e, he, h⟩ := bind_eq_ok_iff.1 h
    obtain ⟨close, -, h⟩ := bind_eq_ok_iff.1 h
    cases h
    apply hread e.value e.rest
    rw [he]
    rfl
  · exact hjunk _ _ _

/-- Before comments are attached. Each entry is read from a suffix of the text. -/
theorem forall_mem_separateEntries {s : List Char}
    (hread : ∀ t, t <:+ s → ∀ e rest span, outcome (entry t) = .ok (e, rest) →
      P (e.withSpan span))
    (hjunk : ∀ content reason span, P (.junk ⟨content, [reason], some span⟩)) (offset : Nat) :
    ∀ e ∈ separateEntries offset s, P e := by
  fun_induction separateEntries offset s with
  | case1 => simp
  | case2 offset s c t h start next ih =>
    have hct : c :: t <:+ s := h ▸ skipBlankLines_suffix s
    intro e he
    rcases List.mem_cons.1 he with rfl | he
    · exact nextEntry_of_forall (hread _ hct) hjunk start
    · exact ih (fun u hu => hread u ((hu.trans (nextEntry_suffix start c t)).trans hct)) e he

/-- A comment that is attached is no entry of its own any more; every other entry stays. -/
theorem forall_mem_attachComments {es : List Entry} (h : ∀ e ∈ es, P e)
    (hattach : ∀ c below e, P (.comment .entry c) → P below → c.attachTo? below = some e → P e) :
    ∀ e ∈ attachComments es, P e := by
  fun_induction attachComments es with
  | case1 => exact h
  | case2 c below rest e he ih =>
    simp only [List.forall_mem_cons] at h ⊢
    exact ⟨hattach c below e h.1 h.2.1 he, ih h.2.2⟩
  | case3 c below rest he ih =>
    rw [List.forall_mem_cons] at h ⊢
    exact ⟨h.1, ih h.2⟩
  | case4 e rest he ih =>
    rw [List.forall_mem_cons] at h ⊢
    exact ⟨h.1, ih h.2⟩

/-- What holds of everything that is read as an entry holds of every entry of a document. -/
theorem forall_mem_parse {text : String}
    (hread : ∀ t, t <:+ text.toList → ∀ e rest span, outcome (entry t) = .ok (e, rest) →
      P (e.withSpan span))
    (hjunk : ∀ content reason span, P (.junk ⟨content, [reason], some span⟩))
    (hattach : ∀ c below e, P (.comment .entry c) → P below → c.attachTo? below = some e → P e) :
    ∀ e ∈ (Document.parse text).entries, P e :=
  forall_mem_attachComments (forall_mem_separateEntries hread hjunk 0) hattach

end FluentMerge
