import FluentMerge.Proofs.Document.CommentLines
import FluentMerge.Proofs.Document.Concatenation

/-!
# Blocks of comment lines

The lines with one mark that stand directly above a line are read as one comment, with all of them,
whatever stands above: what is read last before a line is such a comment or no such line is there
(`Precedes`), and an entry that is cut off says so of the line below it (`leads_next`).
-/

namespace FluentMerge

open Read
open Text (byteLength)

/-! ## Remarks -/

/-- Whether a line is one of a comment about an entry: `#` alone, or `#` and a space and then
anything. -/
def IsRemark (line : List Char) : Prop :=
  '\n' ∉ line ∧ (line = ['#'] ∨ ∃ t, line = '#' :: ' ' :: t)

theorem isMarked_one {line : List Char} : IsMarked 1 line ↔ IsRemark line := Iff.rfl

theorem IsRemark.exists_cons {line : List Char} (h : IsRemark line) : ∃ t, line = '#' :: t :=
  IsMarked.exists_cons Nat.one_pos (isMarked_one.2 h)

/-- Whether the last line of a text is a remark. -/
def EndsWithRemark (s : List Char) : Prop :=
  ∃ above line, s = above ++ (line ++ ['\n']) ∧ AtLineStart above ∧ IsRemark line

theorem AtLineStart.of_append {s t : List Char} (h : AtLineStart (s ++ t)) : AtLineStart t := by
  rcases List.eq_nil_or_concat t with rfl | ⟨u, c, rfl⟩
  · exact atLineStart_nil
  · simpa [AtLineStart] using h

theorem endsWithRemark_line {above line : List Char} (habove : AtLineStart above)
    (hline : '\n' ∉ line) : EndsWithRemark (above ++ (line ++ ['\n'])) ↔ IsRemark line := by
  constructor
  · rintro ⟨above', line', h, habove', hremark⟩
    rw [← List.append_assoc, ← List.append_assoc, List.append_cancel_right_eq] at h
    rwa [lastLine_unique h habove habove' hline hremark.1]
  · intro hremark
    exact ⟨above, line, rfl, habove, hremark⟩

/-- A remark at the end of a text lies behind any place where a line starts. -/
theorem EndsWithRemark.below {s t : List Char} (h : EndsWithRemark (s ++ t)) (hs : AtLineStart s)
    (ht : t ≠ []) : EndsWithRemark t := by
  obtain ⟨above, line, h, habove, hremark⟩ := h
  rcases List.eq_nil_or_concat t with rfl | ⟨u, c, rfl⟩
  · exact absurd rfl ht
  rw [List.concat_eq_append, ← List.append_assoc, ← List.append_assoc] at h
  obtain ⟨h, hc⟩ := List.append_inj' h rfl
  rw [List.concat_eq_append, hc]
  rcases List.append_eq_append_iff.1 h with ⟨a, rfl, rfl⟩ | ⟨a, rfl, rfl⟩
  · exact ⟨a, line, by simp, habove.of_append, hremark⟩
  · -- the line begins above `t`, but one begins where `s` ends as well
    have hnil := eq_nil_of_atLineStart hs fun hmem => hremark.1 (List.mem_append_left _ hmem)
    rw [hnil, List.nil_append] at hremark
    exact ⟨[], u, rfl, atLineStart_nil, hremark⟩

theorem not_endsWithRemark_of_isBlank {s gap : List Char} (hs : AtLineStart s) (hgap : IsBlank gap)
    (hne : gap ≠ []) : ¬ EndsWithRemark (s ++ gap) := by
  intro h
  obtain ⟨above, line, rfl, -, hremark⟩ := h.below hs hne
  obtain ⟨t, rfl⟩ := hremark.exists_cons
  exact absurd (hgap '#' (by simp)) (by decide)

/-! ## Blocks of remarks -/

/-- A text ends with exactly these remarks, below `before`. -/
structure IsBlock (above before : List Char) (remarks : List (List Char)) : Prop where
  text : above = before ++ wholeLines remarks
  ne_nil : remarks ≠ []
  remark : ∀ line ∈ remarks, IsRemark line
  lineStart : AtLineStart before
  maximal : ¬ EndsWithRemark before

/-- The text of a comment with these remarks: the lines without the mark and the space behind it. -/
def remarkText (remarks : List (List Char)) : List Char :=
  ['\n'].intercalate (remarks.map (·.drop 2))

/-- Whether a comment is that of the block at the end of a text: it has the text of the remarks and
lies where they do, without the last line end. -/
def Comment.IsOfBlock (c : Comment) (above before : List Char) : Prop :=
  ∃ remarks, IsBlock above before remarks ∧ c.content = String.ofList (remarkText remarks) ∧
    c.span = some ⟨byteLength before, byteLength above - 1⟩

theorem Comment.IsOfBlock.isDirectlyAbove {c : Comment} {above before : List Char}
    (h : c.IsOfBlock above before) (stop : Nat) :
    c.isDirectlyAbove (some ⟨byteLength above, stop⟩) = true := by
  obtain ⟨remarks, hblock, -, hspan⟩ := h
  have hpos : 0 < byteLength above := by
    apply byteLength_pos
    rw [hblock.text]
    obtain ⟨line, remarks, rfl⟩ := List.exists_cons_of_ne_nil hblock.ne_nil
    simp [wholeLines]
  simp only [Comment.isDirectlyAbove, hspan, beq_iff_eq]
  omega

/-- Below lines with marks stands a remark exactly when they have one mark. -/
theorem endsWithRemark_wholeLines {before : List Char} {n : Nat} {lines : List (List Char)}
    (hbefore : AtLineStart before) (hne : lines ≠ []) (hlines : ∀ line ∈ lines, IsMarked n line) :
    EndsWithRemark (before ++ wholeLines lines) ↔ n = 1 := by
  rcases List.eq_nil_or_concat lines with rfl | ⟨above, line, rfl⟩
  · exact absurd rfl hne
  rw [List.concat_eq_append] at *
  have hline := hlines line (by simp)
  have habove : AtLineStart (before ++ wholeLines above) :=
    atLineStart_append (fun _ => hbefore) (atLineStart_wholeLines above)
  rw [wholeLines, List.flatMap_append, List.flatMap_singleton, ← wholeLines, ← List.append_assoc,
    endsWithRemark_line habove hline.1]
  constructor
  · intro hremark
    exact hline.eq (isMarked_one.2 hremark)
  · rintro rfl
    exact isMarked_one.1 hline

/-- Within a block every line starts with a mark. -/
theorem head_of_wholeLines {n : Nat} (hn : 0 < n) {lines : List (List Char)}
    (hlines : ∀ line ∈ lines, IsMarked n line) {s t : List Char} (h : wholeLines lines = s ++ t)
    (hs : AtLineStart s) (ht : t ≠ []) : t.head? = some '#' := by
  induction lines generalizing s with
  | nil =>
    rw [wholeLines, List.flatMap_nil, eq_comm, List.append_eq_nil_iff] at h
    exact absurd h.2 ht
  | cons line lines ih =>
    obtain ⟨hline, hlines⟩ := List.forall_mem_cons.1 hlines
    rw [wholeLines, List.flatMap_cons, ← wholeLines] at h
    rcases List.append_eq_append_iff.1 h with ⟨a, rfl, hlines'⟩ | ⟨a, hcut, rfl⟩
    · exact ih hlines hlines' hs.of_append
    · rcases List.eq_nil_or_concat a with rfl | ⟨a, c, rfl⟩
      · exact ih hlines rfl atLineStart_nil
      · -- a line that starts within the first starts with it
        rw [List.concat_eq_append, ← List.append_assoc] at hcut
        obtain ⟨rfl, -⟩ := List.append_inj' hcut rfl
        have hnil : s = [] :=
          eq_nil_of_atLineStart (s := []) hs fun hmem => hline.1 (List.mem_append_left _ hmem)
        subst hnil
        obtain ⟨u, hu⟩ := hline.exists_cons hn
        rw [List.nil_append] at hu
        simp [hu]

/-! ## Names of entries -/

/-- The name of a message or a term as it stands in a text. -/
def Entry.name? : Entry → Option (List Char)
  | .message m => some m.id.toList
  | .term t => some ('-' :: t.id.toList)
  | _ => none

/-- Whether a text begins with a name and the mark behind it. -/
def BeginsWithName (name s : List Char) : Prop :=
  ∃ n t, s = name ++ (List.replicate n ' ' ++ '=' :: t)

@[simp] theorem Entry.name?_withSpan (e : Entry) (sp : Span) : (e.withSpan sp).name? = e.name? := by
  cases e <;> rfl

@[simp] theorem Entry.comment?_withSpan (e : Entry) (sp : Span) :
    (e.withSpan sp).comment? = e.comment? := by
  cases e <;> rfl

theorem Comment.attachTo?_name? {c : Comment} {below e : Entry} (h : c.attachTo? below = some e) :
    e.name? = below.name? := by
  obtain ⟨m, rfl, rfl⟩ | ⟨t, rfl, rfl⟩ := attachTo?_cases h
  · rfl
  · rfl

/-- What has a name is given a comment exactly when that is directly above it. -/
theorem Comment.attachTo?_of_name? {c : Comment} {below : Entry} {name : List Char}
    (h : below.name? = some name) :
    c.attachTo? below = none ∧ c.isDirectlyAbove below.span = false ∨
      ∃ e, c.attachTo? below = some e ∧ c.isDirectlyAbove below.span = true ∧
        e.comment? = some c := by
  cases below with
  | message m =>
    rw [attachTo?, Entry.span]
    split
    · next habove => exact .inr ⟨_, rfl, habove, rfl⟩
    · next habove => exact .inl ⟨rfl, by simpa using habove⟩
  | term t =>
    rw [attachTo?, Entry.span]
    split
    · next habove => exact .inr ⟨_, rfl, habove, rfl⟩
    · next habove => exact .inl ⟨rfl, by simpa using habove⟩
  | comment level c => cases h
  | junk j => cases h

namespace Read

variable {s rest : List Char}

theorem text_of_identifier {id : String} (h : outcome (identifier s) = .ok (id, rest)) :
    s = id.toList ++ rest := by
  cases s with
  | nil => cases h
  | cons c s =>
    rw [outcome_identifier] at h
    split at h
    · cases h
      simp
    · cases h

theorem text_of_definition {id : String} {value : Option Pattern}
    (h : outcome (definition s) = .ok ((id, value), rest)) : BeginsWithName id.toList s := by
  obtain ⟨t, u, hname, hequals, -⟩ := definition_cases h
  refine ⟨leadingSpaces t, u, ?_⟩
  rw [text_of_identifier hname, ← hequals, leadingSpaces, replicate_takeWhile, skipSpaces,
    List.takeWhile_append_dropWhile]

/-- What does not begin with the mark of a comment is read as a message or a term whose name it
begins with. -/
theorem name_of_entry {c : Char} {e : Entry} (hc : c ≠ '#')
    (h : outcome (entry (c :: s)) = .ok (e, rest)) :
    ∃ d t, e.name? = some (d :: t) ∧ d ≠ '#' ∧ BeginsWithName (d :: t) (c :: s) := by
  cases entryRead_of_entry h with
  | comment hcomment => exact absurd rfl hc
  | @term _ _ m hterm =>
    -- a name begins with a letter, so the mark of a term tells the two apart
    obtain ⟨u, hhead, -, -⟩ := term_cases hterm
    obtain ⟨n, t, htext⟩ := text_of_definition hhead
    exact ⟨'-', m.id.toList, rfl, by decide, n, t, by rw [htext]; rfl⟩
  | message hletter hmessage =>
    obtain ⟨u, hhead, -, -, -⟩ := message_cases hmessage
    obtain ⟨d, t, hid, hd, -⟩ := isName_of_definition hhead
    exact ⟨d, t, congrArg some hid, ne_of_isAlpha hd (by decide), hid ▸ text_of_definition hhead⟩

/-- What has a name does not begin with the mark of a comment. -/
theorem exists_cons_of_name? {e : Entry} {name : List Char} (h : outcome (entry s) = .ok (e, rest))
    (he : e.name? = some name) : ∃ c t, s = c :: t ∧ c ≠ '#' := by
  cases entryRead_of_entry h with
  | comment hcomment =>
    obtain ⟨level, lines, -, -, rfl⟩ := comment_cases hcomment
    cases he
  | term hterm => exact ⟨_, _, rfl, by decide⟩
  | message hc hmessage => exact ⟨_, _, rfl, ne_of_isAlpha hc (by decide)⟩

end Read

/-! ## The entry above a line -/

/-- The entry that stands above a line, with nothing but blank lines between: a comment about an
entry directly above, which then is all of the remarks there and is over, or anything else, with
no remark directly above. -/
inductive Precedes (above below : List Char) : Option Entry → Prop
  | comment {c : Comment} {before : List Char} : c.IsOfBlock above before →
      isCommentLine 1 below = false → Precedes above below (some (.comment .entry c))
  | other {prev : Option Entry} : ¬ EndsWithRemark above →
      (∀ c, prev = some (.comment .entry c) → ∀ sp ∈ c.span, sp.stop + 1 ≠ byteLength above) →
      Precedes above below prev

/-- The entry that stands above the next line of a text that is not blank. -/
def Leads (prev : Option Entry) (before s : List Char) : Prop :=
  ∀ gap below, s = gap ++ below → IsBlank gap → AtLineStart (before ++ gap) → below ≠ [] →
    (∀ c ∈ below.head?, c ≠ '\n') → Precedes (before ++ gap) below prev

theorem Leads.skip {prev : Option Entry} {before gap s : List Char}
    (h : Leads prev before (gap ++ s)) (hgap : IsBlank gap) : Leads prev (before ++ gap) s := by
  intro gap' below hs hgap' hline hne hhead
  rw [List.append_assoc] at hline ⊢
  exact h (gap ++ gap') below (by rw [hs, List.append_assoc]) (isBlank_append.2 ⟨hgap, hgap'⟩) hline
    hne hhead

/-- What leads a text stands above its first line, if that is not blank. -/
theorem Leads.precedes {prev : Option Entry} {before body after : List Char}
    (h : Leads prev before (body ++ after)) (hline : AtLineStart before) (hne : body ≠ [])
    (hhead : ∀ c ∈ body.head?, c ≠ '\n') : Precedes before (body ++ after) prev := by
  obtain ⟨c, t, rfl⟩ := List.exists_cons_of_ne_nil hne
  have habove := h [] (c :: t ++ after) rfl isBlank_nil
  rw [List.append_nil] at habove
  exact habove hline (List.cons_ne_nil _ _) hhead

/-- Junk does not end with a remark, which would be an entry of its own. -/
theorem not_endsWithRemark_of_junk {before body after : List Char} {fault : SyntaxError}
    (hline : AtLineStart before) (hne : body ≠ [])
    (h : outcome (entryLine (body ++ after)) = .error fault) (hends : JunkEnds body after) :
    ¬ EndsWithRemark (before ++ body) := by
  intro hlast
  obtain ⟨above, line, rfl, habove, hremark⟩ := hlast.below hline hne
  rcases habove.eq_nil_or_concat with rfl | ⟨t, rfl⟩
  · -- the junk would begin with the remark
    have hmark := (isMarked_one.2 hremark).isCommentLine (s := '\n' :: after) (by simp)
    obtain ⟨v, hv⟩ := entryLine_of_mark rfl hmark
    have htext : [] ++ (line ++ ['\n']) ++ after = line ++ '\n' :: after := by simp
    rw [htext, hv] at h
    cases h
  · obtain ⟨u, rfl⟩ := hremark.exists_cons
    have hstart := hends.2 t '#' (u ++ ['\n']) (by simp)
    cases hstart

/-- A message or a term does not end with a remark. -/
theorem not_endsWithRemark_of_entry {before body after : List Char} {e : Entry}
    (hline : AtLineStart before) (h : outcome (entry (body ++ after)) = .ok (e, after))
    (hhead : ∀ c ∈ body.head?, c ≠ '#') : ¬ EndsWithRemark (before ++ (body ++ ['\n'])) := by
  intro hlast
  obtain ⟨above, line, hcut, habove, hremark⟩ := hlast.below hline (by simp)
  rw [← List.append_assoc, List.append_cancel_right_eq] at hcut
  obtain ⟨t, rfl⟩ := hremark.exists_cons
  rcases habove.eq_nil_or_concat with rfl | ⟨u, rfl⟩
  · rw [hcut] at hhead
    exact hhead '#' rfl rfl
  · exact not_mark_within h hhead u t (by rw [hcut]; simp)

/-- A comment about an entry is all of the remarks above the next line. -/
theorem isOfBlock_of_comment {prev : Option Entry} {before body after : List Char}
    (hline : AtLineStart before) (hprev : Precedes before (body ++ after) prev)
    {lines : List (List Char)} (hne : lines ≠ []) (hlines : ∀ line ∈ lines, IsRemark line)
    (hcut : body = ['\n'].intercalate lines) (hafter : ∀ c ∈ after.head?, c = '\n') :
    Comment.IsOfBlock ⟨String.ofList (remarkText lines),
        some ⟨byteLength before, byteLength before + byteLength body⟩⟩
      (before ++ (body ++ ['\n'])) before := by
  refine ⟨lines, ⟨?_, hne, hlines, hline, ?_⟩, rfl, ?_⟩
  · rw [hcut, intercalate_eq_wholeLines hne]
  · cases hprev with
    | other hlast => exact hlast
    | comment _ hbelow =>
      -- these lines would have been read with the comment above them
      have hmarked : ∀ line ∈ lines, IsMarked 1 line := fun l hl => isMarked_one.2 (hlines l hl)
      rw [hcut, isCommentLine_intercalate hne hmarked hafter] at hbelow
      cases hbelow
  · have hlast : byteLength ['\n'] = 1 := rfl
    rw [← List.append_assoc, Text.byteLength_append, hlast, Nat.add_sub_cancel,
      Text.byteLength_append]

section Cut

variable {prev : Option Entry} {before body after below : List Char} {e : Entry}

/-- Blank lines below an entry keep any remark from standing directly above the next line. -/
theorem precedes_of_blankLines {gap : List Char} (hgap : IsBlank gap) (hne : gap ≠ [])
    (hspan : e.span = some ⟨byteLength before, byteLength before + byteLength body⟩) :
    Precedes (before ++ (body ++ ['\n']) ++ gap) below (some e) := by
  refine .other (not_endsWithRemark_of_isBlank ?_ hgap hne) ?_
  · rw [← List.append_assoc]
    exact atLineStart_concat _
  · intro c hc sp hsp
    rw [Option.some.inj hc, Entry.span, Option.mem_def.1 hsp, Option.some.injEq] at hspan
    have hlength := byteLength_pos hne
    have hlast : byteLength ['\n'] = 1 := rfl
    simp only [hspan, Text.byteLength_append, hlast]
    omega

theorem precedes_of_comment {t : List Char} (hline : AtLineStart before)
    (hprev : Precedes before ('#' :: t ++ '\n' :: below) prev)
    (h : outcome (entry ('#' :: t ++ '\n' :: below)) = .ok (e, '\n' :: below)) :
    Precedes (before ++ ('#' :: t ++ ['\n'])) below
      (some (e.withSpan ⟨byteLength before, byteLength before + byteLength ('#' :: t)⟩)) := by
  rw [List.cons_append, outcome_entry, if_pos rfl, ← List.cons_append] at h
  obtain ⟨level, n, lines, hlevel, rfl, hne, hlines, hcut, hlast⟩ := comment_lines h
  rw [List.append_cancel_right_eq] at hcut
  by_cases hn : n = 1
  · subst hn
    obtain rfl : level = .entry := by
      cases hlevel
      rfl
    exact .comment (isOfBlock_of_comment hline hprev hne hlines hcut (by simp)) (hlast below rfl)
  · -- a comment with more marks is given to no entry
    refine .other ?_ ?_
    · rw [hcut, intercalate_eq_wholeLines hne, endsWithRemark_wholeLines hline hne hlines]
      exact hn
    · rintro c hc
      cases hc
      exact absurd (commentLevel?_eq_entry.1 hlevel) hn

theorem precedes_of_name {c : Char} {t : List Char} (hline : AtLineStart before) (hc : c ≠ '#')
    (h : outcome (entry (c :: t ++ '\n' :: below)) = .ok (e, '\n' :: below)) (sp : Span) :
    Precedes (before ++ (c :: t ++ ['\n'])) below (some (e.withSpan sp)) := by
  refine .other (not_endsWithRemark_of_entry hline h (by simpa using hc)) ?_
  intro d hd
  obtain ⟨_, _, hname, -⟩ := name_of_entry hc h
  rw [← e.name?_withSpan, Option.some.inj hd] at hname
  cases hname

/-- What was read last is what stands above the next line. -/
theorem leads_next {rest : List Char} (hline : AtLineStart before) (hne : body ≠ [])
    (hnext : CutsNext (byteLength before) body after e rest)
    (hprev : Precedes before (body ++ after) prev) : Leads (some e) (before ++ body) after := by
  intro gap below hs hgap _ hne' hhead
  cases hnext with
  | junk h hends =>
    -- the line below junk begins an entry, so no blank lines are between
    have hnil : gap = [] := by
      cases gap with
      | nil => rfl
      | cons c gap =>
        obtain ⟨-, hc⟩ := hends.1 c (by simp [hs])
        rcases hgap c (by simp) with rfl | rfl
        · cases hc
        · cases hc
    rw [hnil, List.append_nil]
    refine .other (not_endsWithRemark_of_junk hline hne h hends) ?_
    rintro c ⟨⟩
  | entry h hafter =>
    -- the end of the last line is the first of the blanks
    obtain ⟨g, rfl⟩ : ∃ g, gap = '\n' :: g := by
      cases gap with
      | nil =>
        obtain ⟨d, u, rfl⟩ := List.exists_cons_of_ne_nil hne'
        exact absurd (hafter d (by simp [hs])) (hhead d rfl)
      | cons c g =>
        obtain rfl := hafter c (by simp [hs])
        exact ⟨g, rfl⟩
    have htext : before ++ body ++ '\n' :: g = before ++ (body ++ ['\n']) ++ g := by simp
    rw [htext]
    by_cases hg : g = []
    · subst hg
      obtain rfl : after = '\n' :: below := hs
      obtain ⟨c, t, rfl⟩ := List.exists_cons_of_ne_nil hne
      rw [List.append_nil]
      by_cases hc : c = '#'
      · subst hc
        exact precedes_of_comment hline hprev h
      · exact precedes_of_name hline hc h _
    · exact precedes_of_blankLines (isBlank_cons.1 hgap).2 hg (Entry.span_withSpan _ _)

end Cut

end FluentMerge
