import FluentMerge.Document.Data
import FluentMerge.Proofs.Json.Rewriting

/-!
# Documents and catalogs as data and back

For each kind of data there are the members of its record (`shape`), and with them the ways in which
it can be written (`rewriting`). What is written in a whole way is read as the data itself, and what
is not whole is not read (`roundTrip_of_rewriting`).
-/

namespace FluentMerge

open Json (Member ReadsAs Rewriting readsAs_string readsAs_offset readsAs_ofOption readsAs_ofList
  readsAs_ofTable readsAs_record)

/-! ## Documents -/

/-- Both ends have to be there. -/
def Span.shape : List Member := [.required "start" .same, .required "end" .same]

def Span.rewriting : Rewriting := .record shape

/-- An element names its kind, and its text stands under the same name for both kinds. -/
def PatternElement.shape : List Member := [.required "type" .same, .required "value" .same]

def PatternElement.rewriting : Rewriting := .record shape

def Pattern.shape : List Member := [.required "elements" (.array PatternElement.rewriting)]

def Pattern.rewriting : Rewriting := .record shape

def Attribute.shape : List Member := [.required "id" .same, .required "value" Pattern.rewriting]

def Attribute.rewriting : Rewriting := .record shape

def Comment.shape : List Member :=
  [.required "content" .same, .optional "span" Span.rewriting]

def Comment.rewriting : Rewriting := .record shape

/-- Of a message only the name has to be there. Without attributes it has none. -/
def Message.shape : List Member :=
  [.required "id" .same, .optional "value" Pattern.rewriting,
    .list "attributes" Attribute.rewriting, .optional "comment" Comment.rewriting,
    .optional "span" Span.rewriting]

/-- A term has to have a value. -/
def Term.shape : List Member :=
  [.required "id" .same, .required "value" Pattern.rewriting,
    .list "attributes" Attribute.rewriting, .optional "comment" Comment.rewriting,
    .optional "span" Span.rewriting]

/-- Junk has to have its content. Without annotations it has none. -/
def Junk.shape : List Member :=
  [.required "content" .same, .list "annotations" .same, .optional "span" Span.rewriting]

/-- The members of an entry of this kind besides the name of the kind. -/
def EntryKind.shape : EntryKind → List Member
  | .message => Message.shape
  | .term => Term.shape
  | .comment _ => Comment.shape
  | .junk => Junk.shape

/-- An entry, by the name of its kind. The name is never another, but it can be missing. -/
def Entry.rewriting : Rewriting := fun v j whole =>
  ∃ (kind : EntryKind) (vs : List (String × Json)),
    v = .object (("type", .string kind.name) :: vs) ∧
    Rewriting.record (.required "type" .same :: kind.shape) v j whole

def Document.rewriting : Rewriting := .record [.required "body" (.array Entry.rewriting)]

/-- Whether both ends are words of 64 bits. -/
def Span.InWords (s : Span) : Prop := s.start < UInt64.size ∧ s.stop < UInt64.size

/-- Whether the place of a comment is in words of 64 bits. -/
def Comment.InWords (c : Comment) : Prop := ∀ s ∈ c.span, s.InWords

/-- Whether the places of an entry and of its comment are in words of 64 bits. -/
def Entry.InWords : Entry → Prop
  | .message m => (∀ c ∈ m.comment, c.InWords) ∧ ∀ s ∈ m.span, s.InWords
  | .term t => (∀ c ∈ t.comment, c.InWords) ∧ ∀ s ∈ t.span, s.InWords
  | .comment _ c => c.InWords
  | .junk j => ∀ s ∈ j.span, s.InWords

/-- Whether all places of a document are in words of 64 bits. -/
def Document.InWords (d : Document) : Prop := ∀ e ∈ d.entries, e.InWords

/-- A place is read back if its ends fit: an offset that is no word of 64 bits is refused. -/
theorem Span.readsAs {s : Span} (h : s.InWords) :
    ReadsAs Span.ofJson? Span.rewriting s.toJson s := by
  apply readsAs_record (by decide)
  exact .required (readsAs_offset h.1) (.required (readsAs_offset h.2) .nil)

/-- The name of its kind tells text from a placeable. -/
theorem PatternElement.readsAs (e : PatternElement) :
    ReadsAs PatternElement.ofJson? PatternElement.rewriting e.toJson e := by
  cases e with
  | text value =>
    apply readsAs_record (by decide)
    exact .required (readsAs_string "Text") (.required (readsAs_string value) .nil)
  | placeable source =>
    apply readsAs_record (by decide)
    exact .required (readsAs_string "Placeable") (.required (readsAs_string source) .nil)

theorem Pattern.readsAs (p : Pattern) :
    ReadsAs Pattern.ofJson? Pattern.rewriting p.toJson p := by
  apply readsAs_record (by decide)
  exact .required (readsAs_ofList fun e _ => e.readsAs) .nil

theorem Attribute.readsAs (a : Attribute) :
    ReadsAs Attribute.ofJson? Attribute.rewriting a.toJson a := by
  apply readsAs_record (by decide)
  exact .required (readsAs_string a.id) (.required a.value.readsAs .nil)

/-- A place that is missing is written as null, and null is read as one that is missing. -/
theorem readsAs_span {o : Option Span} (h : ∀ s ∈ o, s.InWords) :
    ReadsAs (Json.nullable? Span.ofJson?) (.nullable Span.rewriting) (.ofOption Span.toJson o) o :=
  readsAs_ofOption nofun fun s hs => Span.readsAs (h s hs)

theorem readsAs_attributes (attributes : List Attribute) :
    ReadsAs (Json.listOf? Attribute.ofJson?) (.array Attribute.rewriting)
      (.ofList Attribute.toJson attributes) attributes :=
  readsAs_ofList fun a _ => a.readsAs

/-- The members of a comment, for a comment of its own and for one of a message. -/
theorem Comment.readAs {c : Comment} (h : c.InWords) :
    Member.ReadAs Comment.ofJson? Comment.shape c.members c := by
  exact .required (readsAs_string c.content) (.optional (readsAs_span h) .nil)

theorem readsAs_comment {o : Option Comment} (h : ∀ c ∈ o, c.InWords) :
    ReadsAs (Json.nullable? Comment.ofJson?) (.nullable Comment.rewriting)
      (.ofOption Comment.toJson o) o :=
  readsAs_ofOption nofun fun c hc => readsAs_record (by decide) (Comment.readAs (h c hc))

theorem readsAs_pattern (o : Option Pattern) :
    ReadsAs (Json.nullable? Pattern.ofJson?) (.nullable Pattern.rewriting)
      (.ofOption Pattern.toJson o) o :=
  readsAs_ofOption nofun fun p _ => p.readsAs

/-- Member after member. An empty list is what stands for attributes that are left out. -/
theorem Message.readAs {m : Message} (h : (Entry.message m).InWords) :
    Member.ReadAs Message.ofJson? Message.shape m.members m := by
  apply Member.ReadAs.required (readsAs_string m.id)
  apply Member.ReadAs.optional (readsAs_pattern m.value)
  apply Member.ReadAs.orElse (readsAs_attributes m.attributes) rfl
  apply Member.ReadAs.optional (readsAs_comment h.1)
  exact .optional (readsAs_span h.2) .nil

theorem Term.readAs {t : Term} (h : (Entry.term t).InWords) :
    Member.ReadAs Term.ofJson? Term.shape t.members t := by
  apply Member.ReadAs.required (readsAs_string t.id)
  apply Member.ReadAs.required t.value.readsAs
  apply Member.ReadAs.orElse (readsAs_attributes t.attributes) rfl
  apply Member.ReadAs.optional (readsAs_comment h.1)
  exact .optional (readsAs_span h.2) .nil

theorem Junk.readAs {j : Junk} (h : (Entry.junk j).InWords) :
    Member.ReadAs Junk.ofJson? Junk.shape j.members j := by
  apply Member.ReadAs.required (readsAs_string j.content)
  apply Member.ReadAs.orElse (readsAs_ofList fun s _ => readsAs_string s) rfl
  exact .optional (readsAs_span h) .nil

/-- What is read once the kind is known. -/
theorem Entry.readAs_of_kind {e : Entry} (h : e.InWords) :
    Member.ReadAs (fun j => EntryKind.ofName? e.kind.name >>= fun kind =>
      match kind with
      | .message => Message.ofJson? j >>= fun m => some (.message m)
      | .term => Term.ofJson? j >>= fun t => some (.term t)
      | .comment level => Comment.ofJson? j >>= fun c => some (.comment level c)
      | .junk => Junk.ofJson? j >>= fun j => some (.junk j)) e.kind.shape e.members e := by
  simp only [EntryKind.ofName?_name, Option.bind_eq_bind, Option.bind_some]
  cases e with
  | message m => exact (Message.readAs h).map Entry.message
  | term t => exact (Term.readAs h).map Entry.term
  | comment level c => exact (Comment.readAs h).map (Entry.comment level)
  | junk j => exact (Junk.readAs h).map Entry.junk

theorem Entry.readAs {e : Entry} (h : e.InWords) :
    Member.ReadAs Entry.ofJson? (.required "type" .same :: e.kind.shape)
      (("type", .string e.kind.name) :: e.members) e :=
  .required (readsAs_string e.kind.name) (Entry.readAs_of_kind h)

/-- No member has the name of another, nor the name under which the kind stands. So it does not
matter in which order they are written. -/
theorem EntryKind.nodup_shape (kind : EntryKind) :
    ("type" :: kind.shape.map Member.name).Nodup := by
  rcases kind with _ | _ | (_ | _ | _) | _ <;> decide

/-- A kind is known by its name. -/
theorem EntryKind.name_injective : Function.Injective EntryKind.name := by
  intro k l h
  apply Option.some.inj
  rw [← EntryKind.ofName?_name k, h, EntryKind.ofName?_name]

/-- However an entry is written, the name of its kind is there unless the entry is not whole. So it
is read with the members of its own kind. -/
theorem Entry.readsAs {e : Entry} (h : e.InWords) :
    ReadsAs Entry.ofJson? Entry.rewriting e.toJson e := by
  have hrecord : ReadsAs Entry.ofJson? (.record (.required "type" .same :: e.kind.shape))
      e.toJson e := readsAs_record e.kind.nodup_shape (Entry.readAs h)
  refine ⟨⟨e.kind, e.members, rfl, hrecord.refl⟩, ?_⟩
  rintro j whole ⟨kind, vs, htype, hj⟩
  obtain rfl : e.kind = kind := by
    unfold Entry.toJson at htype
    apply EntryKind.name_injective
    grind
  exact hrecord.reads hj

/-- Every document with places that fit is read back, in all the ways in which it can be written. -/
theorem Document.readsAs {d : Document} (h : d.InWords) :
    ReadsAs Document.ofJson? Document.rewriting d.toJson d := by
  apply readsAs_record (by decide)
  exact .required (readsAs_ofList fun e he => Entry.readsAs (h e he)) .nil

/-! ## Catalogs -/

/-- Each kind of note is a list of texts, and one that is left out is empty. -/
def Notes.shape : List Member :=
  ["translator", "extracted", "reference", "flag", "previous"].map (.list · .same)

def Notes.rewriting : Rewriting := .record shape

/-- Of a record only the key has to be there. Without notes it has empty ones. -/
def Record.shape : List Member :=
  [.optional "msgctxt" .same, .required "msgid" .same, .optional "msgid_plural" .same,
    .list "msgstr" .same,
    ⟨"comments", some Notes.empty.toJson, Notes.rewriting⟩]

def Record.rewriting : Rewriting := .record shape

/-- All of a catalog can be left out. What is left out is empty. -/
def Catalog.shape : List Member :=
  [⟨"charset", some (.string ""), .same⟩, ⟨"headers", some (.object []), .table .same⟩,
    ⟨"translations", some (.object []), .table (.table Record.rewriting)⟩]

def Catalog.rewriting : Rewriting := .record shape

theorem readsAs_strings (texts : List String) :
    ReadsAs (Json.listOf? Json.string?) (.array .same) (.ofList Json.string texts) texts :=
  readsAs_ofList fun s _ => readsAs_string s

/-- Notes are read back, whatever they hold. -/
theorem Notes.readsAs (n : Notes) : ReadsAs Notes.ofJson? Notes.rewriting n.toJson n := by
  apply readsAs_record (by decide)
  apply Member.ReadAs.guarded
  apply Member.ReadAs.orElse (readsAs_strings n.translator) rfl
  apply Member.ReadAs.orElse (readsAs_strings n.extracted) rfl
  apply Member.ReadAs.orElse (readsAs_strings n.reference) rfl
  apply Member.ReadAs.orElse (readsAs_strings n.flag) rfl
  exact .orElse (readsAs_strings n.previous) rfl .nil

theorem readsAs_nullableString (o : Option String) :
    ReadsAs (Json.nullable? Json.string?) (.nullable .same) (.ofOption Json.string o) o :=
  readsAs_ofOption nofun fun s _ => readsAs_string s

/-- The notes of a record are themselves a record, and the data of empty notes is read as empty
notes. -/
theorem Record.readsAs (r : Record) : ReadsAs Record.ofJson? Record.rewriting r.toJson r := by
  apply readsAs_record (by decide)
  apply Member.ReadAs.optional (readsAs_nullableString r.msgctxt)
  apply Member.ReadAs.required (readsAs_string r.msgid)
  apply Member.ReadAs.optional (readsAs_nullableString r.msgidPlural)
  apply Member.ReadAs.orElse (readsAs_strings r.msgstr) rfl
  exact .orElse r.comments.readsAs Notes.empty.readsAs.read_self .nil

/-- The records of one context are a table by key. -/
theorem Translations.readsAs (t : Translations) :
    ReadsAs Translations.ofJson? (.table Record.rewriting) t.toJson t :=
  readsAs_ofTable fun e _ => e.2.readsAs

/-- Every catalog is read back, in all the ways in which it can be written. There is no number in
it, so nothing has to fit. -/
theorem Catalog.readsAs (c : Catalog) :
    ReadsAs Catalog.ofJson? Catalog.rewriting c.toJson c := by
  apply readsAs_record (by decide)
  apply Member.ReadAs.guarded
  apply Member.ReadAs.orElse (readsAs_string c.charset) rfl
  apply Member.ReadAs.orElse (readsAs_ofTable fun e _ => readsAs_string e.2) rfl
  exact .orElse (readsAs_ofTable fun e _ => Translations.readsAs e.2) rfl .nil

/-- A document with places in words of 64 bits, and every catalog, is read back from its data. It is
also read from the same data with the members of objects in another order, with members that nobody
asks for, and without members that hold what their absence stands for. It is not read where a member
is missing that has to be there. -/
theorem roundTrip_of_rewriting :
    (∀ d : Document, d.InWords → Document.ofJson? d.toJson = some d ∧
      ∀ j, (Document.rewriting d.toJson j true → Document.ofJson? j = some d) ∧
        (Document.rewriting d.toJson j false → Document.ofJson? j = none)) ∧
    ∀ c : Catalog, Catalog.ofJson? c.toJson = some c ∧
      ∀ j, (Catalog.rewriting c.toJson j true → Catalog.ofJson? j = some c) ∧
        (Catalog.rewriting c.toJson j false → Catalog.ofJson? j = none) := by
  constructor
  · intro d hd
    have h := Document.readsAs hd
    exact ⟨h.read_self, fun j => ⟨h.reads, h.reads⟩⟩
  · intro c
    have h := c.readsAs
    exact ⟨h.read_self, fun j => ⟨h.reads, h.reads⟩⟩

/-- A greeting at the beginning of a text. -/
def placedGreeting : Document :=
  ⟨[.message ⟨"hello", some ⟨[.text "Hi"]⟩, [], none, some ⟨0, 10⟩⟩]⟩

/-- Its data with a version, with what it has for a name in front, and without an attribute and a
comment. -/
def greetingData (name : List (String × Json)) : Json :=
  .object [("version", .natural 1), ("body", .array [.object (name ++
    [("type", .string "Message"), ("value", Pattern.toJson ⟨[.text "Hi"]⟩),
      ("span", .object [("end", .natural 10), ("start", .natural 0)])])])]

/-- It is read if it has its name. -/
theorem roundTrip_of_rewriting_greeting :
    placedGreeting.InWords ∧
    Document.ofJson? (greetingData [("id", .string "hello")]) = some placedGreeting ∧
    Document.ofJson? (greetingData []) = none := by
  have hwords : placedGreeting.InWords := by
    simp [placedGreeting, Document.InWords, Entry.InWords, Span.InWords, UInt64.size]
  have hvalue := (readsAs_pattern (some ⟨[.text "Hi"]⟩)).refl
  have hspan : Rewriting.nullable Span.rewriting (Span.toJson ⟨0, 10⟩)
      (.object [("end", .natural 10), ("start", .natural 0)]) _ :=
    .value nofun nofun
      (.intro (.kept .intro (.kept .intro .nil)) (List.forall_mem_nil _) (.swap _ _ _))
  have hversion : ∀ m ∈ [("version", Json.natural 1)], m.1 ∉ ["body"] := by simp
  have hnamed : Document.rewriting placedGreeting.toJson
      (greetingData [("id", .string "hello")]) _ :=
    .intro (.kept (.intro (.cons ⟨.message, _, rfl, .intro
      (.kept .intro (.kept .intro (.kept hvalue (.leftOut (.leftOut (.kept hspan .nil))))))
      (List.forall_mem_nil _) (.swap _ _ _)⟩ .nil)) .nil) hversion .rfl
  have hnameless : Document.rewriting placedGreeting.toJson (greetingData []) _ :=
    .intro (.kept (.intro (.cons ⟨.message, _, rfl, .intro
      (.kept .intro (.missing (.kept hvalue (.leftOut (.leftOut (.kept hspan .nil))))))
      (List.forall_mem_nil _) .rfl⟩ .nil)) .nil) hversion .rfl
  obtain ⟨-, hreads⟩ := roundTrip_of_rewriting.1 placedGreeting hwords
  exact ⟨hwords, (hreads _).1 hnamed, (hreads _).2 hnameless⟩

end FluentMerge
