import FluentMerge.Document.Expression
import FluentMerge.Text.Lines

/-!
# Reading a document

`Document.parse` reads every text. Blank lines are skipped, an entry is read where a line is not
blank, and a stretch of text that is no entry becomes junk up to the next line that can begin one.
A comment that stands directly above a message or a term then becomes part of it.

`Read.entry_shorter` and `afterJunk_shorter` say that each step makes progress.
-/

namespace FluentMerge

namespace Read

/-! ## Entries -/

/-- Reads the mark after the name of an entry or an attribute, spaces before it allowed. -/
def equalsSign (s : List Char) : Read Unit s :=
  (·.within (skipSpaces_suffix s)) <$> expect '=' (skipSpaces s)

/-- Reads a name, the mark after it, and a pattern if there is one. -/
def definition (s : List Char) : Read (String × Option Pattern) s := do
  let id ← identifier s
  let mark ← equalsSign id.rest
  let value ← pattern? mark.rest
  return (value.map fun v => (id.value, v)).within (mark.isSuffix.trans id.isSuffix)

/-- Reads the attributes that follow a value, on any lines below. -/
def attributes (s : List Char) : Read (List Attribute) s :=
  match h : skipBlank s with
  | '.' :: t => do
    let first ← definition t
    match first.value with
    | (id, none) => throw (.attributeValue id)
    | (id, some value) =>
      let others ← attributes first.rest
      return (others.map (⟨id, value⟩ :: ·)).within (first.isSuffix.trans
        ((List.suffix_cons _ _).trans (h ▸ skipBlank_suffix s)))
  | _ => .ok (.here [])
termination_by s.length
decreasing_by
  have := (skipBlank_suffix s).length_le
  have := first.length_rest_le
  simp [h] at *
  omega

/-- Reads a message. It has a value or attributes. -/
def message (s : List Char) : Read Message s := do
  let head ← definition s
  let tail ← attributes head.rest
  refuse (if head.value.2.isNone && tail.value.isEmpty then
    some (.messageContent head.value.1) else none)
  return (tail.map fun attributes => ⟨head.value.1, head.value.2, attributes, none, none⟩).within
    head.isSuffix

/-- Reads a term after its mark. It has a value. -/
def term (s : List Char) : Read Term s := do
  let head ← definition s
  match head.value with
  | (id, none) => throw (.termValue id)
  | (id, some value) =>
    let tail ← attributes head.rest
    return (tail.map fun attributes => ⟨id, value, attributes, none, none⟩).within head.isSuffix

/-! ## Comments -/

/-- The number of `#` at the front of the text. -/
def commentMarks (s : List Char) : Nat := (s.takeWhile (· == '#')).length

/-- Whether the line at the front of `s` is one of a comment with `n` marks. -/
def isCommentLine (n : Nat) (s : List Char) : Bool :=
  commentMarks s == n &&
    match s.drop n with
    | [] => true
    | c :: _ => c == ' ' || c == '\n'

/-- Reads the text of a line of a comment after its marks. -/
def commentLine : (s : List Char) → Read (List Char) s
  | [] => .ok (.here [])
  | c :: s =>
    if c = '\n' then .ok (.here [])
    else if c = ' ' then
      .ok ⟨s.takeWhile (· != '\n'), s.dropWhile (· != '\n'),
        (List.dropWhile_suffix _).trans (List.suffix_cons _ _)⟩
    else .error .commentSpace

/-- Reads the lines of a comment with `n` marks, from after the marks of the first. -/
def commentLines (n : Nat) (s : List Char) : Read (List (List Char)) s := do
  let first ← commentLine s
  match h : first.rest with
  | '\n' :: t =>
    have lineSuffix := (List.drop_suffix n t).trans
      ((List.suffix_cons _ _).trans (h ▸ first.isSuffix))
    if isCommentLine n t then
      let others ← commentLines n (t.drop n)
      return (others.map (first.value :: ·)).within lineSuffix
    else return first.map ([·])
  | _ => return first.map ([·])
termination_by s.length
decreasing_by
  have := first.length_rest_le
  simp [h] at *
  omega

/-- What a comment with this number of marks is about. -/
def commentLevel? : Nat → Option CommentLevel
  | 1 => some .entry
  | 2 => some .group
  | 3 => some .document
  | _ => none

/-- Reads a comment: lines with the same number of marks, one below the other. -/
def comment (s : List Char) : Read Entry s :=
  match commentLevel? (commentMarks s) with
  | none => .error .commentLevel
  | some level => do
    let body ← commentLines (commentMarks s) (s.drop (commentMarks s))
    return (body.map fun lines =>
      .comment level ⟨String.ofList (['\n'].intercalate lines), none⟩).within (List.drop_suffix _ _)

/-- Reads an entry up to the end of its last line. Its first character tells what it is. -/
def entry : (s : List Char) → Read Entry s
  | [] => .error .entryStart
  | c :: t =>
    if c = '#' then comment (c :: t)
    else if c = '-' then
      (fun r => (r.map .term).within (List.suffix_cons _ _)) <$> term t
    else if c.isAlpha then (·.map .message) <$> message (c :: t)
    else .error .entryStart

/-- Reads an entry with the end of its last line, and gives its text too. -/
def entryLine (s : List Char) : Read (Entry × List Char) s := do
  let e ← entry s
  let close ← lineEnd e.rest
  return (close.map fun _ => (e.value, consumed s e.rest)).within e.isSuffix

/-! ## Progress -/

/-- What is defined has a name, which has a character at least. -/
theorem definition_shorter {s : List Char} {r : Reading (String × Option Pattern) s}
    (h : definition s = .ok r) : r.rest.length < s.length := by
  obtain ⟨id, hid, h⟩ := bind_eq_ok_iff.1 h
  obtain ⟨mark, -, h⟩ := bind_eq_ok_iff.1 h
  obtain ⟨value, -, h⟩ := bind_eq_ok_iff.1 h
  cases h
  have := identifier_shorter hid
  have := mark.length_rest_le
  have := value.length_rest_le
  simp only [Reading.within, Reading.map]
  omega

theorem message_shorter {s : List Char} {r : Reading Message s} (h : message s = .ok r) :
    r.rest.length < s.length := by
  obtain ⟨head, hhead, h⟩ := bind_eq_ok_iff.1 h
  obtain ⟨tail, -, h⟩ := bind_eq_ok_iff.1 h
  obtain ⟨-, -, h⟩ := bind_eq_ok_iff.1 h
  cases h
  have := definition_shorter hhead
  have := tail.length_rest_le
  simp only [Reading.within, Reading.map]
  omega

/-- A comment has a mark at least: without one it has no level. -/
theorem comment_shorter {s : List Char} {r : Reading Entry s} (h : comment s = .ok r) :
    r.rest.length < s.length := by
  unfold comment at h
  split at h
  · cases h
  · next level hlevel =>
    obtain ⟨body, -, h⟩ := bind_eq_ok_iff.1 h
    cases h
    have hbody := body.length_rest_le
    simp only [List.length_drop] at hbody
    have hmarks : commentMarks s ≠ 0 := by
      intro h0
      simp [h0, commentLevel?] at hlevel
    have hle : commentMarks s ≤ s.length := (List.takeWhile_prefix _).length_le
    simp only [Reading.within, Reading.map]
    omega

/-- An entry is never empty. -/
theorem entry_shorter {s : List Char} {r : Reading Entry s} (h : entry s = .ok r) :
    r.rest.length < s.length := by
  cases s with
  | nil => simp [entry] at h
  | cons c t =>
    simp only [entry] at h
    split at h
    · exact comment_shorter h
    · split at h
      · obtain ⟨t, -, rfl⟩ := map_eq_ok_iff.1 h
        exact Nat.lt_succ_of_le t.length_rest_le
      · split at h
        · obtain ⟨m, hm, rfl⟩ := map_eq_ok_iff.1 h
          exact message_shorter hm
        · cases h

/-- The end of a line may be the end of the text, so it is the entry that makes the step. -/
theorem entryLine_shorter {s : List Char} {r : Reading (Entry × List Char) s}
    (h : entryLine s = .ok r) : r.rest.length < s.length := by
  obtain ⟨e, he, h⟩ := bind_eq_ok_iff.1 h
  obtain ⟨close, -, h⟩ := bind_eq_ok_iff.1 h
  cases h
  exact Nat.lt_of_le_of_lt close.length_rest_le (entry_shorter he)

end Read

/-! ## Junk -/

/-- Whether an entry can begin with `c`. -/
def isEntryStart (c : Char) : Bool := c.isAlpha || c == '-' || c == '#'

/-- The text from the next line on that can begin an entry. -/
def afterJunk : List Char → List Char
  | [] => []
  | c :: s => if c == '\n' && s.head?.any isEntryStart then s else afterJunk s

theorem afterJunk_suffix (s : List Char) : afterJunk s <:+ s := by
  induction s with
  | nil => exact List.suffix_rfl
  | cons c s ih =>
    unfold afterJunk
    split
    · exact List.suffix_cons _ _
    · exact ih.trans (List.suffix_cons _ _)

/-- Junk is never empty. -/
theorem afterJunk_shorter (c : Char) (s : List Char) :
    (afterJunk (c :: s)).length < s.length + 1 := by
  unfold afterJunk
  split
  · simp
  · exact Nat.lt_succ_of_le (afterJunk_suffix s).length_le

/-! ## Documents -/

/-- The entry or the junk at the front of `s`, which begins at byte `start`, and what follows it. -/
def nextEntry (start : Nat) (s : List Char) : Entry × List Char :=
  match Read.entryLine s with
  | .ok r => (r.value.1.withSpan ⟨start, start + Text.byteLength r.value.2⟩, r.rest)
  | .error e =>
    let content := consumed s (afterJunk s)
    (.junk ⟨String.ofList content, [e.message], some ⟨start, start + Text.byteLength content⟩⟩,
      afterJunk s)

/-- Each round of reading entries takes something from the text. -/
theorem nextEntry_shorter (start : Nat) (c : Char) (s : List Char) :
    (nextEntry start (c :: s)).2.length < s.length + 1 := by
  unfold nextEntry
  split
  · next h => exact Read.entryLine_shorter h
  · exact afterJunk_shorter c s

/-- The entries of a text that begins at byte `offset`, comments standing for themselves. -/
def separateEntries (offset : Nat) (s : List Char) : List Entry :=
  match _h : (skipBlankLines s).2 with
  | [] => []
  | c :: t =>
    let start := offset + Text.byteLength (consumed s (c :: t))
    let next := nextEntry start (c :: t)
    next.1 :: separateEntries (start + Text.byteLength (consumed (c :: t) next.2)) next.2
termination_by s.length
decreasing_by
  have := nextEntry_shorter (offset + Text.byteLength (consumed s (c :: t))) c t
  have := (skipBlankLines_suffix s).length_le
  simp only [_h, List.length_cons] at this
  omega

/-- Whether a comment ends on the line directly above the place `below`. -/
def Comment.isDirectlyAbove (c : Comment) (below : Option Span) : Bool :=
  match c.span, below with
  | some above, some below => above.stop + 1 == below.start
  | _, _ => false

/-- The place of an entry together with its comment. -/
def Comment.spanWith (c : Comment) (below : Option Span) : Option Span :=
  match c.span, below with
  | some above, some below => some ⟨above.start, below.stop⟩
  | _, below => below

/-- The entry with the comment `c`, if it is a message or a term directly below it. -/
def Comment.attachTo? (c : Comment) : Entry → Option Entry
  | .message m =>
    if c.isDirectlyAbove m.span then
      some (.message { m with comment := some c, span := c.spanWith m.span })
    else none
  | .term t =>
    if c.isDirectlyAbove t.span then
      some (.term { t with comment := some c, span := c.spanWith t.span })
    else none
  | _ => none

/-- Gives each message and each term the comment directly above it. -/
def attachComments : List Entry → List Entry
  | [] => []
  | .comment .entry c :: below :: rest =>
    match c.attachTo? below with
    | some e => e :: attachComments rest
    | none => .comment .entry c :: attachComments (below :: rest)
  | e :: rest => e :: attachComments rest

/-- The document that a text holds, byte offsets counted from its beginning. -/
def Document.parse (text : String) : Document :=
  ⟨attachComments (separateEntries 0 text.toList)⟩

/-- The document in the text of a file: a byte order mark before it is dropped and line ends are
made `LF`, and offsets are those of the text that results. -/
def Document.ofFileText (text : String) : Document :=
  .parse (String.ofList (Text.unifyLineEnds (Text.dropByteOrderMark text.toList)))

end FluentMerge
