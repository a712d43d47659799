import FluentMerge.Proofs.Document.Composition
import FluentMerge.Proofs.Text.Trimming

/-!
# The lines of comments

A comment is a block of lines with the same marks, and it is read with all of them and no more
(`comment_lines`). Where a line can be one of a comment, an entry can be read (`entryLine_of_mark`).
Such a line never lies within a message or a term, since what is above it would be read alike
without it (`not_mark_within`).
-/

namespace FluentMerge

open Read

/-! ## Lines -/

/-- Lines with their ends, one below the other. -/
def wholeLines (lines : List (List Char)) : List Char := lines.flatMap (· ++ ['\n'])

/-- Behind the last line end of a text that ends there is nothing. -/
theorem eq_nil_of_atLineStart {s t : List Char} (h : AtLineStart (s ++ t)) (ht : '\n' ∉ t) :
    t = [] := by
  rcases List.eq_nil_or_concat t with rfl | ⟨u, c, rfl⟩
  · rfl
  · rw [List.concat_eq_append] at *
    obtain rfl : c = '\n' := h c (by simp)
    simp at ht

/-- A place where a line begins is the beginning of a text, or it is behind a line end. -/
theorem AtLineStart.eq_nil_or_concat {s : List Char} (h : AtLineStart s) :
    s = [] ∨ ∃ t, s = t ++ ['\n'] := by
  rcases List.eq_nil_or_concat s with rfl | ⟨t, c, rfl⟩
  · exact .inl rfl
  · rw [List.concat_eq_append] at *
    obtain rfl : c = '\n' := h c (by simp)
    exact .inr ⟨t, rfl⟩

/-- A text has one last line. -/
theorem lastLine_unique {s t line line' : List Char} (h : s ++ line = t ++ line')
    (hs : AtLineStart s) (ht : AtLineStart t) (hline : '\n' ∉ line) (hline' : '\n' ∉ line') :
    line = line' := by
  rcases List.append_eq_append_iff.1 h with ⟨a, rfl, rfl⟩ | ⟨a, rfl, rfl⟩
  · rw [eq_nil_of_atLineStart ht fun hmem => hline (List.mem_append_left _ hmem), List.nil_append]
  · rw [eq_nil_of_atLineStart hs fun hmem => hline' (List.mem_append_left _ hmem), List.nil_append]

/-- Lines with ends between them are whole lines once the last has its end. -/
theorem intercalate_eq_wholeLines {lines : List (List Char)} (h : lines ≠ []) :
    ['\n'].intercalate lines ++ ['\n'] = wholeLines lines := by
  induction lines with
  | nil => exact absurd rfl h
  | cons line lines ih =>
    cases lines with
    | nil => simp [wholeLines]
    | cons second lines =>
      have ih := ih (List.cons_ne_nil _ _)
      rw [List.intercalate_cons_cons, List.append_assoc, List.append_assoc, ih]
      simp [wholeLines]

theorem mem_intercalate {c : Char} (hc : c ≠ '\n') {lines : List (List Char)} (h : lines ≠ []) :
    c ∈ ['\n'].intercalate lines ↔ ∃ line ∈ lines, c ∈ line := by
  have hmem : c ∈ ['\n'].intercalate lines ++ ['\n'] ↔ ∃ line ∈ lines, c ∈ line := by
    rw [intercalate_eq_wholeLines h]
    simp [wholeLines, hc]
  simpa [hc] using hmem

theorem atLineStart_wholeLines (lines : List (List Char)) : AtLineStart (wholeLines lines) := by
  rcases List.eq_nil_or_concat lines with rfl | ⟨above, line, rfl⟩
  · exact atLineStart_nil
  · rw [List.concat_eq_append, wholeLines, List.flatMap_append, List.flatMap_singleton,
      ← List.append_assoc]
    exact atLineStart_concat _

/-! ## Marks -/

/-- Whether a line is one of a comment with `n` marks: nothing but these, or a space behind them and
then anything. -/
def IsMarked (n : Nat) (line : List Char) : Prop :=
  '\n' ∉ line ∧ (line = List.replicate n '#' ∨ ∃ t, line = List.replicate n '#' ++ ' ' :: t)

/-- All marks are counted, and no character behind them is one. -/
theorem commentMarks_replicate (n : Nat) {s : List Char} (hs : s.head? ≠ some '#') :
    commentMarks (List.replicate n '#' ++ s) = n := by
  have hall : ∀ c ∈ List.replicate n '#', (c == '#') = true := by simp
  have hnone : s.takeWhile (· == '#') = [] := by
    apply Text.takeWhile_of_head
    intro c hc
    have hne : c ≠ '#' := by
      rintro rfl
      exact hs hc
    simpa using hne
  rw [commentMarks, List.takeWhile_append_of_pos hall, hnone]
  simp

/-- A marked line is one of a comment wherever it ends, at a line end or with the text. -/
theorem IsMarked.isCommentLine {n : Nat} {line : List Char} (h : IsMarked n line) {s : List Char}
    (hs : ∀ c ∈ s.head?, c = '\n') : isCommentLine n (line ++ s) = true := by
  obtain ⟨-, rfl | ⟨t, rfl⟩⟩ := h
  · have hhead : s.head? ≠ some '#' := by
      intro hc
      exact absurd (hs '#' hc) (by decide)
    have hdrop : (List.replicate n '#' ++ s).drop n = s := by simp
    rw [Read.isCommentLine, commentMarks_replicate n hhead, hdrop]
    cases s with
    | nil => simp
    | cons c s =>
      obtain rfl := hs c rfl
      simp
  · have hdrop : (List.replicate n '#' ++ ' ' :: t ++ s).drop n = ' ' :: (t ++ s) := by simp
    rw [Read.isCommentLine, hdrop, List.append_assoc, commentMarks_replicate n (by simp)]
    simp

/-- A text that begins with lines of a comment begins with one. -/
theorem isCommentLine_intercalate {n : Nat} {lines : List (List Char)} (hne : lines ≠ [])
    (hlines : ∀ line ∈ lines, IsMarked n line) {s : List Char} (hs : ∀ c ∈ s.head?, c = '\n') :
    isCommentLine n (['\n'].intercalate lines ++ s) = true := by
  obtain ⟨line, lines, rfl⟩ := List.exists_cons_of_ne_nil hne
  have hline := hlines line (by simp)
  cases lines with
  | nil =>
    rw [List.intercalate_singleton]
    exact hline.isCommentLine hs
  | cons second lines =>
    rw [List.intercalate_cons_cons, List.append_assoc, List.append_assoc]
    exact hline.isCommentLine (by simp)

/-- A line tells the number of its marks. -/
theorem IsMarked.eq {n m : Nat} {line : List Char} (h : IsMarked n line) (h' : IsMarked m line) :
    n = m := by
  have hn := h.isCommentLine (s := []) (by simp)
  have hm := h'.isCommentLine (s := []) (by simp)
  simp only [Read.isCommentLine, Bool.and_eq_true, beq_iff_eq] at hn hm
  exact hn.1.symm.trans hm.1

theorem IsMarked.exists_cons {n : Nat} (hn : 0 < n) {line : List Char} (h : IsMarked n line) :
    ∃ t, line = '#' :: t := by
  obtain ⟨k, rfl⟩ := Nat.exists_eq_add_one.2 hn
  obtain ⟨-, rfl | ⟨t, rfl⟩⟩ := h
  · exact ⟨_, rfl⟩
  · exact ⟨_, rfl⟩

theorem replicate_takeWhile (c : Char) (s : List Char) :
    List.replicate (s.takeWhile (· == c)).length c = s.takeWhile (· == c) := by
  symm
  refine List.eq_replicate_iff.2 ⟨rfl, fun d hd => ?_⟩
  simpa using List.mem_takeWhile_imp hd

/-- A text begins with its marks. -/
theorem replicate_commentMarks_append_drop (s : List Char) :
    List.replicate (commentMarks s) '#' ++ s.drop (commentMarks s) = s := by
  have hmarks : s.take (commentMarks s) = List.replicate (commentMarks s) '#' := by
    rw [commentMarks, replicate_takeWhile]
    exact (List.prefix_iff_eq_take.1 (List.takeWhile_prefix _)).symm
  rw [← hmarks, List.take_append_drop]

namespace Read

/-! ## Reading a comment -/

variable {n : Nat} {s rest : List Char}

/-- One line of a comment is read to its end. -/
theorem commentLine_marked {value : List Char} (n : Nat)
    (h : outcome (commentLine s) = .ok (value, rest)) :
    ∃ line, IsMarked n line ∧ List.replicate n '#' ++ s = line ++ rest ∧
      value = line.drop (n + 1) ∧ ∀ c ∈ rest.head?, c = '\n' := by
  have hmarks : IsMarked n (List.replicate n '#') := ⟨by simp, .inl rfl⟩
  cases s with
  | nil =>
    cases h
    exact ⟨_, hmarks, rfl, by simp, by simp⟩
  | cons c s =>
    rw [outcome_commentLine] at h
    split at h
    · next hc =>
      cases h
      exact ⟨_, hmarks, rfl, by simp, by simpa using hc⟩
    split at h
    · next hline hc =>
      cases h
      subst hc
      -- behind a space all of the line is text
      refine ⟨List.replicate n '#' ++ ' ' :: s.takeWhile (· != '\n'), ⟨?_, .inr ⟨_, rfl⟩⟩, ?_, ?_,
        ?_⟩
      · simpa using Text.not_mem_takeWhile_ne s
      · simp
      · simp [List.drop_append]
      · intro c hc
        have hhead := List.head?_dropWhile_not (· != '\n') s
        rw [Option.mem_def.1 hc] at hhead
        simpa using hhead
    · cases h

/-- The lines of a comment are read with the end of all but the last, as far as they have the same
marks. -/
theorem commentLines_marked {values : List (List Char)}
    (h : outcome (commentLines n s) = .ok (values, rest)) :
    ∃ lines, lines ≠ [] ∧ (∀ line ∈ lines, IsMarked n line) ∧
      List.replicate n '#' ++ s = ['\n'].intercalate lines ++ rest ∧
      values = lines.map (·.drop (n + 1)) ∧ (∀ c ∈ rest.head?, c = '\n') ∧
      ∀ t, rest = '\n' :: t → isCommentLine n t = false := by
  -- on the length: each line that goes on leaves a shorter text
  induction hlength : s.length using Nat.strongRecOn generalizing s values with
  | ind m ih =>
    subst hlength
    rw [outcome_commentLines] at h
    obtain ⟨⟨value, u⟩, hfirst, h⟩ := bind_eq_ok_iff.1 h
    obtain ⟨line, hline, hcut, rfl, hhead⟩ := commentLine_marked n hfirst
    have hone (hlast : ∀ t, u = '\n' :: t → isCommentLine n t = false) :
        ∃ lines, lines ≠ [] ∧ (∀ line ∈ lines, IsMarked n line) ∧
          List.replicate n '#' ++ s = ['\n'].intercalate lines ++ u ∧
          [line.drop (n + 1)] = lines.map (·.drop (n + 1)) ∧ (∀ c ∈ u.head?, c = '\n') ∧
          ∀ t, u = '\n' :: t → isCommentLine n t = false :=
      ⟨[line], by simp, by simpa using hline, by simpa using hcut, rfl, hhead, hlast⟩
    split at h
    · next t hu =>
      dsimp only at hu
      subst hu
      split at h
      · next hmark =>
        obtain ⟨⟨others, v⟩, hothers, h⟩ := map_eq_ok_iff.1 h
        cases h
        have hshorter : (t.drop n).length < s.length := by
          have hle := (outcome_suffix hfirst).length_le
          rw [List.length_cons] at hle
          rw [List.length_drop]
          omega
        obtain ⟨lines, hne, hlines, hbelow, rfl, hrest⟩ := ih _ hshorter hothers rfl
        simp only [isCommentLine, Bool.and_eq_true, beq_iff_eq] at hmark
        rw [← hmark.1, replicate_commentMarks_append_drop] at hbelow
        obtain ⟨second, lines, rfl⟩ := List.exists_cons_of_ne_nil hne
        refine ⟨line :: second :: lines, by simp, List.forall_mem_cons.2 ⟨hline, hlines⟩, ?_, rfl,
          hrest⟩
        rw [hcut, hbelow, List.intercalate_cons_cons]
        simp
      · next hmark =>
        cases h
        refine hone ?_
        rintro t' heq
        cases heq
        simpa using hmark
    · next hu =>
      cases h
      exact hone fun t ht => absurd ht (hu t)

/-- A comment is read with all of its lines, and what is below it is no such line. -/
theorem comment_lines {e : Entry} (h : outcome (comment s) = .ok (e, rest)) :
    ∃ level n lines, commentLevel? n = some level ∧
      e = .comment level ⟨String.ofList (['\n'].intercalate (lines.map (·.drop (n + 1)))), none⟩ ∧
      lines ≠ [] ∧ (∀ line ∈ lines, IsMarked n line) ∧ s = ['\n'].intercalate lines ++ rest ∧
      ∀ t, rest = '\n' :: t → isCommentLine n t = false := by
  obtain ⟨level, values, hlevel, hvalues, rfl⟩ := comment_cases h
  obtain ⟨lines, hne, hlines, hcut, rfl, -, hlast⟩ := commentLines_marked hvalues
  rw [replicate_commentMarks_append_drop] at hcut
  exact ⟨level, _, lines, hlevel, rfl, hne, hlines, hcut, hlast⟩

end Read

/-! ## Lines that can be one of a comment -/

theorem commentLevel?_eq_entry {n : Nat} : commentLevel? n = some .entry ↔ n = 1 := by
  constructor
  · intro h
    unfold commentLevel? at h
    split at h
    · rfl
    all_goals cases h
  · rintro rfl
    rfl

/-- A line that can be one of a comment is read as the beginning of an entry. -/
theorem entryLine_of_mark {n : Nat} {level : CommentLevel} (hlevel : commentLevel? n = some level)
    {s : List Char} (h : isCommentLine n s = true) :
    ∃ v, outcome (entryLine s) = .ok v := by
  have hpos : 0 < n := by
    apply Nat.pos_of_ne_zero
    rintro rfl
    cases hlevel
  -- the comment is read with all its lines, and a line end or nothing is left
  obtain ⟨values, rest, hvalues, hrest⟩ := commentLines_of_isCommentLine hpos h
  simp only [isCommentLine, Bool.and_eq_true, beq_iff_eq] at h
  obtain ⟨rfl, -⟩ := h
  obtain ⟨t, rfl⟩ : ∃ t, s = '#' :: t := by
    obtain ⟨k, hk⟩ := Nat.exists_eq_add_one.2 hpos
    have hmarks := replicate_commentMarks_append_drop s
    rw [hk, List.replicate_succ] at hmarks
    exact ⟨_, hmarks.symm⟩
  rw [outcome_entryLine, outcome_entry, if_pos rfl, outcome_comment, hlevel]
  simp only [hvalues]
  cases rest with
  | nil => exact ⟨_, rfl⟩
  | cons c rest =>
    obtain rfl := hrest c rfl
    exact ⟨_, rfl⟩

/-- No line of a message or a term can be one of a comment. -/
theorem not_mark_within {body after : List Char} {e : Entry}
    (h : outcome (entry (body ++ after)) = .ok (e, after)) (hhead : ∀ c ∈ body.head?, c ≠ '#')
    (u v : List Char) : body ≠ u ++ '\n' :: '#' :: v := by
  rintro rfl
  cases u with
  | nil =>
    -- no entry begins with the end of a line
    rw [List.nil_append, List.cons_append, outcome_entry] at h
    cases h
  | cons d u =>
    have hbelow : IsBelow ('\n' :: '#' :: (v ++ after)) := .cons 0 (.comment _) (by simp)
    have hagree := entry_agree hbelow.isTail .nil hbelow.head_skipBlank (by simp [skipBlank])
      (hhead d rfl) u
    have htext : d :: u ++ '\n' :: '#' :: v ++ after = d :: (u ++ '\n' :: '#' :: (v ++ after)) := by
      simp
    rw [← htext, h] at hagree
    obtain ⟨e, e', he, -⟩ | ⟨_, rest, _, ⟨w, -, hw, -⟩, he, -⟩ := hagree.cases
    · cases he
    · -- what the reader left would be longer than what is behind the mark
      cases he
      have hlength := congrArg List.length hw
      simp only [List.length_append, List.length_cons] at hlength
      omega

end FluentMerge
