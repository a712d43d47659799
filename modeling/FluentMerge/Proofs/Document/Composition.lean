import FluentMerge.Proofs.Document.Layout
import FluentMerge.Proofs.Document.Locality
import Mathlib.Tactic.Convert

/-!
# Documents one below the other

What is below a document begins on a line of its own: nothing, or blank lines and then an entry or a
comment (`IsBelow`). The entries of the text above it are the same with it and without it. Only a
comment at the end of the one may go on at the beginning of the other, and junk takes the line ends
that follow it (`NextAgree`).
-/

namespace FluentMerge

open Read
open Text (byteLength byteLength_nil)

/-! ## What is below a document -/

/-- Whether `b` begins behind the end of a line, with an entry or a comment after any number of
empty lines, or is empty. -/
inductive IsBelow : List Char → Prop
  | nil : IsBelow []
  | cons (n : Nat) {t : List Char} : Opens t → t.head? ≠ some '.' →
      IsBelow ('\n' :: (List.replicate n '\n' ++ t))

namespace Opens

variable {t : List Char}

theorem skipBlankLines_eq (h : Opens t) : skipBlankLines t = (0, t) := by
  cases t with
  | nil => exact skipBlankLines_of_nil rfl
  | cons c t =>
    have hspace : c ≠ ' ' := fun hc => h.head_ne (d := ' ') (by decide) (by rw [hc]; rfl)
    have hline : c ≠ '\n' := fun hc => h.head_ne (d := '\n') (by decide) (by rw [hc]; rfl)
    apply skipBlankLines_of_ne (c := c) (t := t) _ hline
    simp [skipSpaces, hspace]

theorem continuesValue_eq (h : Opens t) : continuesValue t = false := by
  cases t with
  | nil => rfl
  | cons c t =>
    have hspace : c ≠ ' ' := fun hc => h.head_ne (d := ' ') (by decide) (by rw [hc]; rfl)
    have hbrace : c ≠ '{' := fun hc => h.head_ne (d := '{') (by decide) (by rw [hc]; rfl)
    simp [continuesValue, skipSpaces, hspace, hbrace]

/-- Unless it is an attribute, what begins something new is an entry or nothing. -/
theorem isEntryStart_head (h : Opens t) (hpoint : t.head? ≠ some '.') :
    t = [] ∨ t.head?.any isEntryStart = true := by
  cases h with
  | nothing => exact .inl rfl
  | comment t => exact .inr rfl
  | point t => exact absurd rfl hpoint
  | message t hc _ _ => exact .inr (by simp [isEntryStart, hc])
  | term t _ _ _ => exact .inr rfl

end Opens

/-- Empty lines in front of a text are skipped. -/
theorem skipBlankLines_replicate (n : Nat) (t : List Char) :
    (skipBlankLines (List.replicate n '\n' ++ t)).2 = (skipBlankLines t).2 := by
  induction n with
  | zero => rfl
  | succ n ih =>
    rw [List.replicate_succ, List.cons_append,
      skipBlankLines_of_lineEnd (t := List.replicate n '\n' ++ t) rfl]
    exact ih

theorem skipBlank_replicate (n : Nat) (t : List Char) :
    skipBlank (List.replicate n '\n' ++ t) = skipBlank t := by
  apply List.dropWhile_append_of_pos
  intro c hc
  rw [List.eq_of_mem_replicate hc]
  rfl

namespace IsBelow

variable {b : List Char}

theorem isTail (h : IsBelow b) : IsTail b := by
  cases h with
  | nil => exact .nil
  | cons n ht _ =>
    refine .cons ?_ ?_
    · rwa [skipBlank_replicate, ht.skipBlank_eq]
    · rw [skipBlankLines_replicate, ht.skipBlankLines_eq]
      exact ht.continuesValue_eq

theorem head_skipBlank (h : IsBelow b) : (skipBlank b).head? ≠ some '.' := by
  cases h with
  | nil => simp [skipBlank]
  | @cons n t ht hpoint =>
    have hblank : skipBlank ('\n' :: (List.replicate n '\n' ++ t)) = t := by
      rw [← List.cons_append, ← List.replicate_succ, skipBlank_replicate, ht.skipBlank_eq]
    rwa [hblank]

/-- The line end in front of it is one of those that are skipped. -/
theorem skipBlankLines_tail (h : IsBelow b) : (skipBlankLines b.tail).2 = (skipBlankLines b).2 := by
  cases h with
  | nil => rfl
  | @cons n t _ _ =>
    rw [List.tail_cons, skipBlankLines_of_lineEnd (s := '\n' :: (List.replicate n '\n' ++ t)) rfl]

theorem skipBlankLines_skipBlankLines (h : IsBelow b) :
    (skipBlankLines (skipBlankLines b).2).2 = (skipBlankLines b).2 := by
  rw [← h.skipBlankLines_tail]
  cases h with
  | nil => rw [List.tail_nil, skipBlankLines_of_nil (s := []) rfl, skipBlankLines_of_nil rfl]
  | cons n ht _ =>
    rw [List.tail_cons, skipBlankLines_replicate, ht.skipBlankLines_eq, ht.skipBlankLines_eq]

/-- Junk in front of it ends where the blank lines do. -/
theorem afterJunk_eq (h : IsBelow b) : afterJunk b = (skipBlankLines b).2 := by
  cases h with
  | nil =>
    rw [skipBlankLines_of_nil rfl]
    rfl
  | @cons n t ht hpoint =>
    rw [skipBlankLines_of_lineEnd (t := List.replicate n '\n' ++ t) rfl]
    simp only
    rw [skipBlankLines_replicate, ht.skipBlankLines_eq]
    induction n with
    | zero =>
      rw [List.replicate_zero, List.nil_append, afterJunk]
      rcases ht.isEntryStart_head hpoint with rfl | hstart
      · rfl
      · rw [hstart]
        rfl
    | succ n ih =>
      rw [List.replicate_succ, List.cons_append, afterJunk]
      exact ih

end IsBelow

/-- Junk ends within a text or only in what is below it. -/
theorem afterJunk_append_cases (w : List Char) :
    (∃ u, u.length < w.length ∧ ∀ b, IsTail b → afterJunk (w ++ b) = u ++ b) ∨
      ∀ b, IsTail b → afterJunk (w ++ b) = afterJunk b := by
  induction w with
  | nil => exact .inr fun b _ => rfl
  | cons c w ih =>
    -- what stands behind a line end is seen within the text, since no entry begins a tail
    have hnext {b : List Char} (hb : IsTail b) :
        (w ++ b).head?.any isEntryStart = w.head?.any isEntryStart := by
      cases w with
      | nil => cases hb <;> rfl
      | cons d w => rfl
    by_cases hend : (c == '\n' && w.head?.any isEntryStart) = true
    · refine .inl ⟨w, Nat.lt_succ_self _, ?_⟩
      intro b hb
      rw [List.cons_append, afterJunk, hnext hb, if_pos hend]
    · have hstep (b : List Char) (hb : IsTail b) :
          afterJunk (c :: w ++ b) = afterJunk (w ++ b) := by
        rw [List.cons_append, afterJunk, hnext hb, if_neg hend]
      rcases ih with ⟨u, hu, ih⟩ | ih
      · exact .inl ⟨u, Nat.lt_succ_of_lt hu, fun b hb => (hstep b hb).trans (ih b hb)⟩
      · exact .inr fun b hb => (hstep b hb).trans (ih b hb)

/-! ## Comments -/

namespace Read

variable {b c : List Char}

theorem commentMarks_append (hb : IsTail b) (s : List Char) :
    commentMarks (s ++ b) = commentMarks s := by
  rw [commentMarks, hb.takeWhile_append (by decide), commentMarks]

theorem commentMarks_le (s : List Char) : commentMarks s ≤ s.length :=
  (List.takeWhile_prefix _).length_le

theorem isCommentLine_append (hb : IsTail b) {n : Nat} (hn : 0 < n) (s : List Char) :
    isCommentLine n (s ++ b) = isCommentLine n s := by
  rw [isCommentLine, isCommentLine, commentMarks_append hb]
  by_cases hmarks : commentMarks s = n
  · subst hmarks
    rw [List.drop_append_of_le_length (commentMarks_le s)]
    cases s.drop (commentMarks s) with
    | nil => cases hb <;> rfl
    | cons d t => rfl
  · rw [beq_false_of_ne hmarks, Bool.false_and, Bool.false_and]

theorem commentLine_agree (hb : IsTail b) (hc : IsTail c) (s : List Char) :
    Agree (Behind b c s.length) (outcome (commentLine (s ++ b)))
      (outcome (commentLine (s ++ c))) := by
  cases s with
  | nil =>
    have hempty {d : List Char} (hd : IsTail d) : outcome (commentLine d) = .ok ([], d) := by
      cases hd <;> rfl
    rw [List.nil_append, List.nil_append, hempty hb, hempty hc]
    exact .value _ ⟨[], Nat.le_refl _, rfl, rfl⟩
  | cons d s =>
    simp only [List.cons_append, outcome_commentLine]
    split
    · exact .value _ ⟨d :: s, Nat.le_refl _, rfl, rfl⟩
    split
    · rw [hb.takeWhile_append (p := (· != '\n')) rfl, hc.takeWhile_append (p := (· != '\n')) rfl,
        hb.dropWhile_append (p := (· != '\n')) rfl, hc.dropWhile_append (p := (· != '\n')) rfl]
      exact .value _ ⟨_, Nat.le_succ_of_le (List.dropWhile_suffix _).length_le, rfl, rfl⟩
    · exact .fault _ _

/-- The lines of a comment are read alike on both tails, or they go on in the tail `b`. The tail `c`
is too short for that. -/
theorem commentLines_cases (hb : IsTail b) (hc : c = [] ∨ c = ['\n']) {n : Nat} (hn : 0 < n)
    (s : List Char) :
    Agree (Behind b c s.length) (outcome (commentLines n (s ++ b)))
        (outcome (commentLines n (s ++ c))) ∨
      ∃ lines t, b = '\n' :: t ∧ isCommentLine n t = true ∧
        outcome (commentLines n (s ++ c)) = .ok (lines, c) ∧
        outcome (commentLines n (s ++ b)) =
          (fun p : List (List Char) × List Char => (lines ++ p.1, p.2)) <$>
            outcome (commentLines n (t.drop n)) := by
  have hc' : IsTail c := by
    rcases hc with rfl | rfl
    · exact .nil
    · exact IsBelow.isTail (.cons 0 .nothing (by simp))
  -- on the length: each line that goes on leaves a shorter text
  induction h : s.length using Nat.strongRecOn generalizing s with
  | ind m ih =>
    subst h
    rcases (commentLine_agree hb hc' s).cases with
      ⟨e, e', he, he'⟩ | ⟨first, _, _, ⟨u, hu, rfl, rfl⟩, he, he'⟩
    · rw [outcome_commentLines, outcome_commentLines, he, he']
      exact .inl (.fault e e')
    cases u with
    | nil =>
      -- the line ends with the text: only `b` can hold another one
      have hshort : outcome (commentLines n (s ++ c)) = .ok ([first], c) := by
        rw [outcome_commentLines, he']
        rcases hc with rfl | rfl
        · rfl
        · have hnone : isCommentLine n [] = false := by
            simp [isCommentLine, commentMarks, Nat.ne_of_lt hn]
          simp only [bind, Except.bind, List.nil_append, hnone]
          rfl
      rw [hshort, outcome_commentLines, he]
      simp only [bind, Except.bind]
      cases hb with
      | nil => exact .inl (.value _ ⟨[], Nat.zero_le _, rfl, rfl⟩)
      | @cons t _ _ =>
        cases hmark : isCommentLine n t with
        | true => exact .inr ⟨[first], t, rfl, hmark, rfl, by simp [hmark]⟩
        | false =>
          simp only [List.nil_append, hmark]
          exact .inl (.value _ ⟨[], Nat.zero_le _, rfl, rfl⟩)
    | cons d u =>
      rw [outcome_commentLines n (s ++ b), outcome_commentLines n (s ++ c), he, he']
      simp only [bind, Except.bind, List.cons_append]
      by_cases hd : d = '\n'
      · subst hd
        -- the marks of the next line lie within the text, so both tails see the same
        simp only [isCommentLine_append hb hn, isCommentLine_append hc' hn]
        split
        · next hmark =>
          have hle : n ≤ u.length := by
            simp only [isCommentLine, Bool.and_eq_true, beq_iff_eq] at hmark
            exact hmark.1 ▸ commentMarks_le u
          rw [List.length_cons] at hu
          have hlength : (u.drop n).length ≤ u.length := by simp
          rw [List.drop_append_of_le_length hle, List.drop_append_of_le_length hle]
          rcases ih (u.drop n).length (by omega) (u.drop n) rfl with h | ⟨lines, t, hbt, ht, h, h'⟩
          · exact .inl ((h.map fun lines => first :: lines).behind_mono (by omega))
          · refine .inr ⟨first :: lines, t, hbt, ht, ?_, ?_⟩
            · rw [h]
              rfl
            · rw [h']
              cases outcome (commentLines n (t.drop n)) <;> rfl
        · exact .inl (.value _ ⟨'\n' :: u, hu, rfl, rfl⟩)
      · split
        · next t ht => exact absurd (List.cons.inj ht).1 hd
        split
        · next t ht => exact absurd (List.cons.inj ht).1 hd
        · exact .inl (.value _ ⟨d :: u, hu, rfl, rfl⟩)

/-- The lines of a comment are read to the end of the last. -/
theorem commentLines_of_isCommentLine {n : Nat} (hn : 0 < n) {s : List Char}
    (h : isCommentLine n s = true) :
    ∃ lines rest, outcome (commentLines n (s.drop n)) = .ok (lines, rest) ∧
      ∀ d ∈ rest.head?, d = '\n' := by
  induction h' : s.length using Nat.strongRecOn generalizing s with
  | ind m ih =>
    subst h'
    -- behind the marks there is a space, a line end or nothing
    have hfirst : ∃ first rest, outcome (commentLine (s.drop n)) = .ok (first, rest) ∧
        rest.length ≤ (s.drop n).length ∧ ∀ d ∈ rest.head?, d = '\n' := by
      simp only [isCommentLine, Bool.and_eq_true] at h
      cases hs : s.drop n with
      | nil => exact ⟨[], [], rfl, Nat.le_refl _, by simp⟩
      | cons d t =>
        rw [hs] at h
        rw [outcome_commentLine]
        split
        · next hd => exact ⟨[], d :: t, rfl, Nat.le_refl _, by simp [hd]⟩
        · next hd =>
          have hspace : d = ' ' := by simpa [hd] using h.2
          rw [if_pos hspace]
          refine ⟨_, _, rfl, Nat.le_succ_of_le (List.dropWhile_suffix _).length_le, ?_⟩
          intro a ha
          have := List.head?_dropWhile_not (· != '\n') t
          simp_all
    obtain ⟨first, rest, hfirst, hlength, hrest⟩ := hfirst
    rw [outcome_commentLines, hfirst]
    simp only [bind, Except.bind]
    split
    · next t =>
      split
      · next hmark =>
        rw [List.length_cons, List.length_drop] at hlength
        -- the line below is marked too, and the induction reads on from it
        obtain ⟨lines, rest', hlines, hrest'⟩ := ih t.length (by omega) hmark rfl
        rw [hlines]
        exact ⟨first :: lines, rest', rfl, hrest'⟩
      · exact ⟨[first], _, rfl, hrest⟩
    · exact ⟨[first], _, rfl, hrest⟩

/-- An entry is read alike on both tails, or it is a comment that goes on in the tail `b`. -/
theorem entry_cases (hb : IsBelow b) (hc : c = [] ∨ c = ['\n']) (d : Char) (s : List Char) :
    Agree (Behind b c (d :: s).length) (outcome (entry (d :: (s ++ b))))
        (outcome (entry (d :: (s ++ c)))) ∨
      ∃ level above below whole rest,
        outcome (entry (d :: (s ++ c))) = .ok (.comment level above, c) ∧
        b.tail.head? = some '#' ∧ outcome (entry b.tail) = .ok (.comment level below, rest) ∧
        outcome (entry (d :: (s ++ b))) = .ok (.comment level whole, rest) ∧
        ∀ a ∈ rest.head?, a = '\n' := by
  have hc' : IsBelow c := by
    rcases hc with rfl | rfl
    · exact .nil
    · exact .cons 0 .nothing (by simp)
  -- a comment is the only entry that looks past the first line end of its tail
  by_cases hd : d = '#'
  · subst hd
    have hentry (t : List Char) : outcome (entry ('#' :: t)) = outcome (comment ('#' :: t)) := by
      rw [outcome_entry, if_pos rfl]
    rw [hentry, hentry, outcome_comment, outcome_comment, ← List.cons_append, ← List.cons_append,
      commentMarks_append hb.isTail, commentMarks_append hc'.isTail]
    have hle := commentMarks_le ('#' :: s)
    have hpos : 0 < commentMarks ('#' :: s) := by simp [commentMarks]
    generalize commentMarks ('#' :: s) = n at hle hpos
    cases hlevel : commentLevel? n with
    | none => exact .inl (.fault _ _)
    | some level =>
      simp only
      rw [List.drop_append_of_le_length hle, List.drop_append_of_le_length hle]
      rcases commentLines_cases hb.isTail hc hpos (('#' :: s).drop n) with
        h | ⟨lines, t, rfl, ht, h, h'⟩
      · have h := h.map fun lines =>
          Entry.comment level ⟨String.ofList (['\n'].intercalate lines), none⟩
        exact .inl (h.behind_mono (by simp))
      · obtain ⟨lines', rest, hlines, hrest⟩ := commentLines_of_isCommentLine hpos ht
        have hmarks : commentMarks t = n := by
          simp only [isCommentLine, Bool.and_eq_true, beq_iff_eq] at ht
          exact ht.1
        have hbelow : t.head? = some '#' ∧ outcome (entry t) =
            .ok (.comment level ⟨String.ofList (['\n'].intercalate lines'), none⟩, rest) := by
          cases t with
          | nil => exact absurd hmarks (Nat.ne_of_lt hpos)
          | cons a t =>
            obtain rfl : a = '#' := by
              by_cases ha : a = '#'
              · exact ha
              · simp [commentMarks, ha] at hmarks
                omega
            rw [hentry, outcome_comment, hmarks, hlevel]
            simp only
            rw [hlines]
            exact ⟨rfl, rfl⟩
        refine .inr ⟨level, ⟨String.ofList (['\n'].intercalate lines), none⟩, _,
          ⟨String.ofList (['\n'].intercalate (lines ++ lines')), none⟩, rest, ?_, hbelow.1,
          hbelow.2, ?_, hrest⟩
        · rw [h]
          rfl
        · rw [h', hlines]
          rfl
  · exact .inl (entry_agree hb.isTail hc'.isTail hb.head_skipBlank hc'.head_skipBlank hd s)

end Read

/-! ## The next entry -/

/-- The entry without the reasons that junk is given with. -/
def Entry.unannotated : Entry → Entry
  | .junk j => .junk { j with annotations := [] }
  | e => e

/-- The junk at the front of `s`, which begins at byte `start`, when `after` follows it. -/
def junkBefore (start : Nat) (s after : List Char) : Entry :=
  .junk ⟨String.ofList (consumed s after), [], some ⟨start, start + byteLength (consumed s after)⟩⟩

theorem nextEntry_of_fault {s : List Char} {e : SyntaxError}
    (h : outcome (entryLine s) = .error e) (start : Nat) :
    (nextEntry start s).1.unannotated = junkBefore start s (afterJunk s) ∧
      (nextEntry start s).2 = afterJunk s := by
  unfold nextEntry
  cases h' : entryLine s with
  | error e => exact ⟨rfl, rfl⟩
  | ok r =>
    rw [h'] at h
    cases h

/-- An entry that is read to the end of a line is the next one. -/
theorem nextEntry_of_entry {s rest : List Char} {e : Entry}
    (h : outcome (entry s) = .ok (e, rest)) (hrest : ∀ d ∈ rest.head?, d = '\n') (start : Nat) :
    nextEntry start s = (e.withSpan ⟨start, start + byteLength (consumed s rest)⟩, rest.tail) := by
  have hline : outcome (entryLine s) = .ok ((e, consumed s rest), rest.tail) := by
    rw [outcome_entryLine, h]
    cases rest with
    | nil => rfl
    | cons d rest =>
      obtain rfl := hrest d rfl
      rfl
  unfold nextEntry
  cases h' : entryLine s with
  | error e =>
    rw [h'] at hline
    cases hline
  | ok r =>
    rw [h'] at hline
    simp only [outcome_ok, Except.ok.injEq, Prod.mk.injEq] at hline
    obtain ⟨hvalue, hrest⟩ := hline
    simp only [hvalue, hrest]

/-- How the entries at the front of `w ++ b` and of `w ++ c` go together, each with the text behind
it: both end in `w`, they end with it, they are junk that ends in the tail, or they are a comment
that goes on in `b`. -/
inductive NextAgree (start : Nat) (w b c : List Char) :
    Entry × List Char → Entry × List Char → Prop
  | within {e e' : Entry} {u : List Char} : e.unannotated = e'.unannotated → u.length < w.length →
      NextAgree start w b c (e, u ++ b) (e', u ++ c)
  | line (e : Entry) : e.kind ≠ .junk → NextAgree start w b c (e, b.tail) (e, c.tail)
  | junk {e e' : Entry} : e.unannotated = junkBefore start (w ++ b) (afterJunk b) →
      e'.unannotated = junkBefore start (w ++ c) (afterJunk c) →
      NextAgree start w b c (e, afterJunk b) (e', afterJunk c)
  | comment (level : CommentLevel) (above whole : Comment) {rest : List Char} :
      b.tail.head? = some '#' →
      (∀ start', ∃ below, nextEntry start' b.tail = (.comment level below, rest)) →
      NextAgree start w b c (.comment level whole, rest) (.comment level above, c.tail)

section NextEntry

variable {b c : List Char}

theorem nextEntry_agree_of_fault (hb : IsTail b) (hc : IsTail c) {w : List Char}
    {e e' : SyntaxError} (he : outcome (entryLine (w ++ b)) = .error e)
    (he' : outcome (entryLine (w ++ c)) = .error e') (start : Nat) :
    NextAgree start w b c (nextEntry start (w ++ b)) (nextEntry start (w ++ c)) := by
  obtain ⟨hentry, hrest⟩ := nextEntry_of_fault he start
  obtain ⟨hentry', hrest'⟩ := nextEntry_of_fault he' start
  rcases afterJunk_append_cases w with ⟨u, hu, h⟩ | h
  · -- junk stops within the text
    rw [h b hb] at hentry hrest
    rw [h c hc] at hentry' hrest'
    -- so its content is the same, and only the fault may differ
    have hsame : junkBefore start (w ++ b) (u ++ b) = junkBefore start (w ++ c) (u ++ c) := by
      rw [junkBefore, junkBefore, consumed_behind (Nat.le_of_lt hu),
        consumed_behind (Nat.le_of_lt hu)]
    have hagree : NextAgree start w b c ((nextEntry start (w ++ b)).1, u ++ b)
        ((nextEntry start (w ++ c)).1, u ++ c) :=
      .within (by rw [hentry, hentry', hsame]) hu
    rwa [← hrest, ← hrest'] at hagree
  · rw [h b hb] at hentry hrest
    rw [h c hc] at hentry' hrest'
    have hagree : NextAgree start w b c ((nextEntry start (w ++ b)).1, afterJunk b)
        ((nextEntry start (w ++ c)).1, afterJunk c) := .junk hentry hentry'
    rwa [← hrest, ← hrest'] at hagree

theorem nextEntry_agree_of_entry (hb : IsTail b) (hc : IsTail c) {w u : List Char}
    {e : Entry} (he : outcome (entry (w ++ b)) = .ok (e, u ++ b))
    (he' : outcome (entry (w ++ c)) = .ok (e, u ++ c)) (hu : u.length ≤ w.length) (start : Nat) :
    NextAgree start w b c (nextEntry start (w ++ b)) (nextEntry start (w ++ c)) := by
  have hkind : e.kind ≠ .junk := entry_kind he
  cases u with
  | nil =>
    -- the entry goes up to the tails, which end its line
    rw [nextEntry_of_entry he hb.head_eq, nextEntry_of_entry he' hc.head_eq, consumed_behind hu,
      consumed_behind hu]
    exact .line _ (by simpa using hkind)
  | cons d u =>
    by_cases hd : d = '\n'
    · subst hd
      rw [nextEntry_of_entry he (by simp), nextEntry_of_entry he' (by simp), consumed_behind hu,
        consumed_behind hu]
      exact .within rfl hu
    · -- something else stands on its last line, so it is junk on both tails
      have hfault {s t : List Char} (h : outcome (entry s) = .ok (e, d :: u ++ t)) :
          outcome (entryLine s) = .error .lineEnd := by
        rw [outcome_entryLine, h, List.cons_append]
        simp only [bind, Except.bind, outcome_lineEnd, if_neg hd]
        rfl
      exact nextEntry_agree_of_fault hb hc (hfault he) (hfault he') start

theorem nextEntry_agree (hb : IsBelow b) (hc : c = [] ∨ c = ['\n']) (start : Nat) (d : Char)
    (s : List Char) :
    NextAgree start (d :: s) b c (nextEntry start (d :: (s ++ b)))
      (nextEntry start (d :: (s ++ c))) := by
  have hc' : IsTail c := by
    rcases hc with rfl | rfl
    · exact .nil
    · exact IsBelow.isTail (.cons 0 .nothing (by simp))
  rcases entry_cases hb hc d s with
    h | ⟨level, above, below, whole, rest, he', hmark, hbelow, he, hrest⟩
  · rcases h.cases with ⟨e, e', he, he'⟩ | ⟨e, _, _, ⟨u, hu, rfl, rfl⟩, he, he'⟩
    · have hfault {s : List Char} {e : SyntaxError} (h : outcome (entry s) = .error e) :
          outcome (entryLine s) = .error e := by
        rw [outcome_entryLine, h]
        rfl
      exact nextEntry_agree_of_fault (w := d :: s) hb.isTail hc' (hfault he) (hfault he') start
    · exact nextEntry_agree_of_entry (w := d :: s) hb.isTail hc' he he' hu start
  · rw [nextEntry_of_entry he hrest, nextEntry_of_entry he' hc'.head_eq]
    exact .comment level _ _ hmark fun start' => ⟨_, nextEntry_of_entry hbelow hrest start'⟩

end NextEntry

/-! ## All entries -/

theorem separateEntries_of_nil {s : List Char} (h : (skipBlankLines s).2 = []) (offset : Nat) :
    separateEntries offset s = [] := by
  rw [separateEntries]
  split
  · rfl
  · next h' =>
    rw [h] at h'
    cases h'

/-- Behind blank lines the next entry stands, and behind it the others. -/
theorem separateEntries_of_cons {s : List Char} {c : Char} {t : List Char}
    (h : (skipBlankLines s).2 = c :: t) {offset start : Nat}
    (hstart : start = offset + byteLength (consumed s (c :: t))) :
    separateEntries offset s = (nextEntry start (c :: t)).1 ::
      separateEntries (start + byteLength (consumed (c :: t) (nextEntry start (c :: t)).2))
        (nextEntry start (c :: t)).2 := by
  rw [separateEntries]
  split
  · next h' =>
    rw [h] at h'
    cases h'
  · next c' t' h' =>
    rw [h] at h'
    obtain ⟨rfl, rfl⟩ := List.cons.inj h'
    subst hstart
    rfl

/-- Blank lines in front of the entries only move them. -/
theorem separateEntries_of_skipped {s t : List Char} (h : (skipBlankLines s).2 = t)
    (ht : (skipBlankLines t).2 = t) (offset : Nat) :
    separateEntries offset s = separateEntries (offset + byteLength (consumed s t)) t := by
  cases t with
  | nil => rw [separateEntries_of_nil h, separateEntries_of_nil ht]
  | cons c t =>
    rw [separateEntries_of_cons h rfl, separateEntries_of_cons ht rfl]
    simp

/-- Where only blank text is left behind the first entry, and it is no comment, it is the document.
-/
theorem parse_of_nextEntry {c : Char} {t rest : List Char} {e : Entry} (hc : c.isAlpha = true)
    (h : nextEntry 0 (c :: t) = (e, rest)) (hrest : (skipBlankLines rest).2 = [])
    (he : ∀ level, e.kind ≠ .comment level) :
    (Document.parse (String.ofList (c :: t))).entries = [e] := by
  have hstart : 0 = 0 + byteLength (consumed (c :: t) (c :: t)) := by simp
  have hentries : separateEntries 0 (c :: t) = [e] := by
    rw [separateEntries_of_cons (skipBlankLines_of_isAlpha hc t) hstart, h,
      separateEntries_of_nil hrest]
  rw [Document.parse, String.toList_ofList, hentries]
  cases e with
  | comment level c => exact absurd rfl (he level)
  | _ => rfl

theorem byteLength_consumed {s rest : List Char} (h : rest <:+ s) :
    byteLength (consumed s rest) + byteLength rest = byteLength s := by
  rw [← Text.byteLength_append, consumed_append h]

/-- A text in front of a tail has no entry, or its first entry is the next one on a line of it. -/
theorem separateEntries_cases (offset : Nat) (s : List Char) :
    (∀ b, IsTail b → (skipBlankLines (s ++ b)).2 = (skipBlankLines b).2) ∨
      ∃ gap d w, s = gap ++ d :: w ∧ ∀ b, IsTail b → separateEntries offset (s ++ b) =
        (nextEntry (offset + byteLength gap) (d :: (w ++ b))).1 ::
          separateEntries (offset + byteLength gap + byteLength (consumed (d :: (w ++ b))
              (nextEntry (offset + byteLength gap) (d :: (w ++ b))).2))
            (nextEntry (offset + byteLength gap) (d :: (w ++ b))).2 := by
  rcases skipBlankLines_append_cases s with h | ⟨n, line, ⟨gap, rfl⟩, hspaces, h⟩
  · exact .inl h
  · obtain ⟨d, w, rfl⟩ := List.exists_cons_of_ne_nil (l := line) (by rintro rfl; exact hspaces rfl)
    refine .inr ⟨gap, d, w, rfl, ?_⟩
    intro b hb
    have hlines : (skipBlankLines (gap ++ d :: w ++ b)).2 = d :: (w ++ b) := by
      rw [h b hb]
      rfl
    apply separateEntries_of_cons hlines
    rw [consumed_eq (w := gap) (by simp)]

/-! ## Texts of whole lines -/

/-- `Joined es fs gs`: the entries `gs` are `es` and then `fs`, but for the reasons of junk. A
comment at the end of `es` may be one with a comment at the beginning of `fs`. -/
inductive Joined : List Entry → List Entry → List Entry → Prop
  | nil (fs : List Entry) : Joined [] fs fs
  | cons {e e' : Entry} {es fs gs : List Entry} : e'.unannotated = e.unannotated →
      Joined es fs gs → Joined (e :: es) fs (e' :: gs)
  | comment (level : CommentLevel) (above below whole : Comment) (fs : List Entry) :
      Joined [.comment level above] (.comment level below :: fs) (.comment level whole :: fs)

/-- The entries of a text that ends with a line, and of what begins below it. -/
theorem separateEntries_joined {t : List Char} (ht : Opens t) (hpoint : t.head? ≠ some '.')
    (offset : Nat) (s : List Char) :
    Joined (separateEntries offset (s ++ ['\n']))
      (separateEntries (offset + byteLength (s ++ ['\n'])) t)
      (separateEntries offset (s ++ '\n' :: t)) := by
  have hb : IsBelow ('\n' :: t) := .cons 0 ht hpoint
  have hc : IsTail ['\n'] := IsBelow.isTail (.cons 0 .nothing (by simp))
  have hlines : (skipBlankLines ('\n' :: t)).2 = t := by
    rw [skipBlankLines_of_lineEnd (t := t) rfl, ht.skipBlankLines_eq]
  induction h : s.length using Nat.strongRecOn generalizing s offset with
  | ind m ih =>
    subst h
    rcases separateEntries_cases offset s with h | ⟨gap, d, w, rfl, h⟩
    · have hnil : (skipBlankLines ['\n']).2 = [] := by
        rw [skipBlankLines_of_lineEnd (t := []) rfl, skipBlankLines_of_nil rfl]
      rw [separateEntries_of_nil ((h _ hc).trans hnil),
        separateEntries_of_skipped ((h _ hb.isTail).trans hlines) (by rw [ht.skipBlankLines_eq]),
        consumed_eq (w := s ++ ['\n']) (by simp)]
      exact .nil _
    · rw [h _ hc, h _ hb.isTail]
      have hsize (x : List Char) :=
        byteLength_consumed (nextEntry_suffix (offset + byteLength gap) d (w ++ x))
      have hsizeBelow := hsize ('\n' :: t)
      have hsizeAlone := hsize ['\n']
      have hagree := nextEntry_agree hb (.inr rfl) (offset + byteLength gap) d w
      -- the entry and what is left behind it count, not how they were read
      generalize nextEntry (offset + byteLength gap) (d :: (w ++ '\n' :: t)) = x at *
      generalize nextEntry (offset + byteLength gap) (d :: (w ++ ['\n'])) = y at *
      simp only [Text.byteLength_append, Text.byteLength_cons, byteLength_nil] at hsizeBelow ⊢
      cases hagree with
      | @within e e' u he hu =>
        have hu' : u.length < (gap ++ d :: w).length := by
          rw [List.length_append]
          omega
        have hrest := ih u.length hu' (offset + byteLength gap +
          byteLength (consumed (d :: (w ++ ['\n'])) (u ++ ['\n']))) u rfl
        simp only [Text.byteLength_append, Text.byteLength_cons, byteLength_nil] at hrest hsizeBelow
        simp only [Text.byteLength_append, Text.byteLength_cons, byteLength_nil] at hsizeAlone
        have hstart : byteLength (consumed (d :: (w ++ '\n' :: t)) (u ++ '\n' :: t)) =
            byteLength (consumed (d :: (w ++ ['\n'])) (u ++ ['\n'])) := by omega
        refine .cons he ?_
        rw [hstart]
        convert hrest using 2
        omega
      | line e he =>
        rw [separateEntries_of_nil (s := List.tail ['\n']) (by rw [skipBlankLines_of_nil rfl])]
        refine .cons rfl ?_
        dsimp only [List.tail_cons] at hsizeBelow ⊢
        convert Joined.nil _ using 2
        omega
      | junk he he' =>
        have hall : afterJunk ['\n'] = [] := rfl
        have hbelow : afterJunk ('\n' :: t) = t := hb.afterJunk_eq.trans hlines
        rw [hbelow] at he hsizeBelow ⊢
        rw [hall] at he' hsizeAlone ⊢
        rw [separateEntries_of_nil (s := []) (by rw [skipBlankLines_of_nil rfl])]
        refine .cons ?_ ?_
        · rw [he, he', junkBefore, junkBefore, consumed_eq (w := d :: (w ++ ['\n'])) (by simp),
            consumed_eq (w := d :: (w ++ ['\n'])) (by simp)]
        · dsimp only at hsizeBelow ⊢
          convert Joined.nil _ using 2
          omega
      | @comment level above whole rest hmark hbelow =>
        -- the comment goes on in `t`, so `t` begins with the rest of it
        obtain ⟨u, rfl⟩ : ∃ u, t = '#' :: u := by
          cases t with
          | nil => cases hmark
          | cons a u => exact ⟨u, by rw [Option.some.inj hmark]⟩
        generalize hplace : offset + (byteLength gap + (d.utf8Size + byteLength w) +
          ('\n'.utf8Size + 0)) = place
        obtain ⟨below, hnext⟩ := hbelow place
        dsimp only [List.tail_cons] at hnext
        have hcomment : (skipBlankLines ('#' :: u)).2 = '#' :: u := by rw [ht.skipBlankLines_eq]
        have hself : place = place + byteLength (consumed ('#' :: u) ('#' :: u)) := by simp
        have hsizeComment := byteLength_consumed (nextEntry_suffix place '#' u)
        rw [separateEntries_of_nil (s := List.tail ['\n']) (by rw [skipBlankLines_of_nil rfl]),
          separateEntries_of_cons hcomment hself]
        rw [hnext] at hsizeComment ⊢
        convert Joined.comment level above below whole _ using 3
        dsimp only at hsizeBelow hsizeComment ⊢
        simp only [Text.byteLength_cons] at hsizeBelow hsizeComment
        omega

end FluentMerge
