/-!
# Fluent documents

The data that reading a Fluent document gives: its entries in order, each with the bytes it
occupies.

## Patterns

A `Pattern` is the text of a value, cut at its placeables. A placeable is kept as the source between
its braces, because a merge only asks whether there is one.

## Entries

An `Entry` is a message, a term, a comment of one of three levels, or junk: a stretch of text that
is no entry, kept with the reason. `Entry.kind` names the six kinds as users know them.
-/

namespace FluentMerge

/-- Byte offsets in the text of a document: from `start` up to and without `stop`. -/
structure Span where
  start : Nat
  stop : Nat
  deriving DecidableEq, Repr

/-- A stretch of a pattern: text as it stands, or the source of a placeable without its braces. -/
inductive PatternElement where
  | text (value : String)
  | placeable (source : String)
  deriving DecidableEq, Repr

/-- The value of a message, a term or an attribute. -/
structure Pattern where
  elements : List PatternElement
  deriving DecidableEq, Repr

/-- A named value that belongs to a message or a term. -/
structure Attribute where
  id : String
  value : Pattern
  deriving DecidableEq, Repr

/-- The text of a comment, without its marks. -/
structure Comment where
  content : String
  span : Option Span
  deriving DecidableEq, Repr

/-- What a comment is about: the entry below it, the entries that follow, or the whole document. It
is written as one, two or three `#`. -/
inductive CommentLevel where
  | entry
  | group
  | document
  deriving DecidableEq, Repr

/-- A translatable text with a name. -/
structure Message where
  id : String
  value : Option Pattern
  attributes : List Attribute
  comment : Option Comment
  span : Option Span
  deriving DecidableEq, Repr

/-- A text that only other texts refer to. -/
structure Term where
  id : String
  value : Pattern
  attributes : List Attribute
  comment : Option Comment
  span : Option Span
  deriving DecidableEq, Repr

/-- A stretch of text that is no entry, and why. -/
structure Junk where
  content : String
  annotations : List String
  span : Option Span
  deriving DecidableEq, Repr

/-- An entry of a document. -/
inductive Entry where
  | message (m : Message)
  | term (t : Term)
  | comment (level : CommentLevel) (c : Comment)
  | junk (j : Junk)
  deriving DecidableEq, Repr

/-- The kind of an entry. -/
inductive EntryKind where
  | message
  | term
  | comment (level : CommentLevel)
  | junk
  deriving DecidableEq, Repr

/-- The name of a kind, as it is written in documents of data and in error texts. -/
def EntryKind.name : EntryKind → String
  | .message => "Message"
  | .term => "Term"
  | .comment .entry => "Comment"
  | .comment .group => "GroupComment"
  | .comment .document => "ResourceComment"
  | .junk => "Junk"

/-- Every kind there is. -/
def EntryKind.all : List EntryKind :=
  [.message, .term, .comment .entry, .comment .group, .comment .document, .junk]

/-- The kind that a name stands for. -/
def EntryKind.ofName? (name : String) : Option EntryKind :=
  EntryKind.all.find? (·.name == name)

/-- A kind is read back from its name. -/
@[simp] theorem EntryKind.ofName?_name (k : EntryKind) : EntryKind.ofName? k.name = some k := by
  rcases k with _ | _ | (_ | _ | _) | _ <;> rfl

namespace Entry

/-- The kind of an entry. -/
def kind : Entry → EntryKind
  | .message _ => .message
  | .term _ => .term
  | .comment level _ => .comment level
  | .junk _ => .junk

/-- The bytes that an entry occupies, if it comes from a text. -/
def span : Entry → Option Span
  | .message m => m.span
  | .term t => t.span
  | .comment _ c => c.span
  | .junk j => j.span

/-- The entry at another place. -/
def withSpan (e : Entry) (s : Span) : Entry :=
  match e with
  | .message m => .message { m with span := some s }
  | .term t => .term { t with span := some s }
  | .comment level c => .comment level { c with span := some s }
  | .junk j => .junk { j with span := some s }

@[simp] theorem span_withSpan (e : Entry) (s : Span) : (e.withSpan s).span = some s := by
  cases e <;> rfl

/-- The place of an entry says nothing of its kind. -/
@[simp] theorem kind_withSpan (e : Entry) (s : Span) : (e.withSpan s).kind = e.kind := by
  cases e <;> rfl

end Entry

/-- A Fluent document: its entries in the order of the text. -/
structure Document where
  entries : List Entry
  deriving DecidableEq, Repr

end FluentMerge
