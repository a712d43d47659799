import FluentMerge.Proofs.Document.CommentLines
import FluentMerge.Proofs.Document.Entries

/-!
# What is read can be written

The names in a document that was read are names again, and in a text without carriage returns the
comments have none (`parse_isLegible`).
-/

namespace FluentMerge

open Read

/-- Whether a text is a name: a letter, then letters, digits, `_` and `-`. -/
def IsName (id : String) : Prop :=
  ∃ c t, id.toList = c :: t ∧ c.isAlpha = true ∧ ∀ d ∈ t, isNameChar d = true

instance (id : String) : Decidable (IsName id) :=
  decidable_of_iff (id.toList.head?.any Char.isAlpha && id.toList.tail.all isNameChar) <| by
    rw [IsName]
    cases id.toList with
    | nil => simp
    | cons c t =>
      simp only [List.head?_cons, Option.any_some, List.tail_cons, Bool.and_eq_true,
        List.all_eq_true]
      exact ⟨fun h => ⟨c, t, rfl, h⟩, fun ⟨_, _, hid, h⟩ => by cases hid; exact h⟩

/-- Whether a comment is all on lines that a carriage return does not cut. -/
def Comment.IsLegible (c : Comment) : Prop := '\r' ∉ c.content.toList

/-- Whether the names of a message are names, and its comment is legible. -/
structure Message.IsLegible (m : Message) : Prop where
  name : IsName m.id
  attributes : ∀ a ∈ m.attributes, IsName a.id
  comment : ∀ c ∈ m.comment, c.IsLegible

/-- Whether what an entry keeps of its text is legible. -/
def Entry.IsLegible : Entry → Prop
  | .message m => m.IsLegible
  | .comment _ c => c.IsLegible
  | _ => True

/-- Where an entry stands says nothing of its names. -/
theorem Entry.IsLegible.withSpan {e : Entry} (h : e.IsLegible) (s : Span) :
    (e.withSpan s).IsLegible := by
  cases e with
  | message m => exact ⟨h.name, h.attributes, h.comment⟩
  | comment level c => exact h
  | term t => trivial
  | junk j => trivial

namespace Read

variable {s rest : List Char}

/-- An identifier is read as a letter and all the characters of names behind it. -/
theorem isName_of_identifier {id : String} (h : outcome (identifier s) = .ok (id, rest)) :
    IsName id := by
  cases s with
  | nil => cases h
  | cons c s =>
    rw [outcome_identifier] at h
    split at h
    · next hc =>
      cases h
      refine ⟨c, s.takeWhile isNameChar, String.toList_ofList, hc, ?_⟩
      have := List.all_takeWhile (l := s) (p := isNameChar)
      simpa only [List.all_eq_true] using this
    · cases h

/-- What is defined has a name. -/
theorem isName_of_definition {id : String} {value : Option Pattern}
    (h : outcome (definition s) = .ok ((id, value), rest)) : IsName id := by
  obtain ⟨t, u, hname, -, -⟩ := definition_cases h
  exact isName_of_identifier hname

theorem isName_of_attributes {attributes : List Attribute}
    (h : outcome (Read.attributes s) = .ok (attributes, rest)) :
    ∀ a ∈ attributes, IsName a.id :=
  forall_mem_attributes (fun _ _ _ _ hfirst => isName_of_definition hfirst) h

/-- A message is read without its comment, so only its names count here. -/
theorem isLegible_of_message {m : Message} (h : outcome (message s) = .ok (m, rest)) :
    m.IsLegible := by
  obtain ⟨t, hhead, htail, -, hnone⟩ := message_cases h
  exact ⟨isName_of_definition hhead, isName_of_attributes htail, by simp [hnone]⟩

/-! ## Comments -/

/-- The lines of a comment are lines of the text, each without its mark. -/
theorem isLegible_of_comment {e : Entry} (hs : '\r' ∉ s) (h : outcome (comment s) = .ok (e, rest)) :
    e.IsLegible := by
  obtain ⟨level, n, lines, -, rfl, hne, -, hcut, -⟩ := comment_lines h
  intro hmem
  rw [String.toList_ofList, mem_intercalate (by decide) (by simpa using hne)] at hmem
  obtain ⟨line, hline, hmem⟩ := hmem
  obtain ⟨whole, hwhole, rfl⟩ := List.mem_map.1 hline
  apply hs
  rw [hcut, List.mem_append, mem_intercalate (by decide) hne]
  exact .inl ⟨whole, hwhole, List.mem_of_mem_drop hmem⟩

theorem isLegible_of_entry {e : Entry} (hs : '\r' ∉ s) (h : outcome (entry s) = .ok (e, rest)) :
    e.IsLegible := by
  cases entryRead_of_entry h with
  | comment hcomment => exact isLegible_of_comment hs hcomment
  | term hterm => trivial
  | message hc hmessage => exact isLegible_of_message hmessage

end Read

/-- A message that gets the comment above it is as legible as the comment. -/
theorem Comment.IsLegible.attachTo? {c : Comment} {below e : Entry} (hc : c.IsLegible)
    (hbelow : below.IsLegible) (h : c.attachTo? below = some e) : e.IsLegible := by
  obtain ⟨m, rfl, rfl⟩ | ⟨t, rfl, rfl⟩ := Comment.attachTo?_cases h
  · refine ⟨hbelow.name, hbelow.attributes, ?_⟩
    rintro d hd
    cases hd
    exact hc
  · trivial

/-- What a document keeps of a text without carriage returns is legible. -/
theorem parse_isLegible {text : String} (h : '\r' ∉ text.toList) :
    ∀ e ∈ (Document.parse text).entries, e.IsLegible := by
  apply forall_mem_parse
  · intro t ht e rest span hread
    have ht' : '\r' ∉ t := fun hmem => h (ht.subset hmem)
    exact (isLegible_of_entry ht' hread).withSpan span
  · intro content reason span
    trivial
  · intro c below e hc hbelow hattach
    exact Comment.IsLegible.attachTo? hc hbelow hattach

/-- A file may have carriage returns. They are gone from its text before it is read. -/
theorem ofFileText_isLegible (text : String) :
    ∀ e ∈ (Document.ofFileText text).entries, e.IsLegible := by
  apply parse_isLegible
  rw [String.toList_ofList]
  exact Text.not_mem_unifyLineEnds _

end FluentMerge
