import FluentMerge.Proofs.Catalog.Consistency

/-!
# Blank lines between records

A blank line closes the record above it once this has its text. The lines that begin a record close
the one above it too, but only when that has a translation. So a blank line can be left out where
the record above it is translated and such a line follows, or where nothing follows at all: then the
catalog of the text is the same without it (`parse_withoutBlankLines`). Where a blank line alone
tells two records apart it cannot (`not_blankLinesAreOptional`).

What carries the argument is `Lags`: without a blank line the record that it closes is still open,
until the line that follows closes it.
-/

namespace FluentMerge

open Text (trim trim_nil)

/-! ## Texts without blank lines -/

namespace Text

/-- The text without its blank lines, each left out with its line end. -/
def dropBlankLines (s : List Char) : List Char :=
  match _h : s.dropWhile (· != '\n') with
  | [] => if trim s = [] then [] else s
  | _ :: below =>
    let line := s.takeWhile (· != '\n')
    if trim line = [] then dropBlankLines below else line ++ '\n' :: dropBlankLines below
termination_by s.length
decreasing_by
  all_goals
    have := (List.dropWhile_suffix (l := s) (· != '\n')).length_le
    rw [_h, List.length_cons] at this
    exact this

/-- A text with a line end is its first line and what stands below. -/
theorem eq_line_append {s below : List Char} {c : Char}
    (h : s.dropWhile (· != '\n') = c :: below) :
    s = s.takeWhile (· != '\n') ++ '\n' :: below := by
  have hc := List.head?_dropWhile_not (· != '\n') s
  simp only [h, List.head?_cons, bne_eq_false_iff_eq] at hc
  subst hc
  rw [← h, List.takeWhile_append_dropWhile]

/-- The lines that are left are those with something on them. -/
theorem lines_dropBlankLines (s : List Char) :
    lines (dropBlankLines s) = (lines s).filter (trim · ≠ []) := by
  fun_induction dropBlankLines s with
  | case1 s h hblank =>
    by_cases hs : s = []
    · subst hs
      rfl
    · have hline := List.takeWhile_append_dropWhile (p := (· != '\n')) (l := s)
      rw [h, List.append_nil] at hline
      rw [lines_of_not_mem (hline ▸ not_mem_takeWhile_ne s) hs]
      simp [lines, hblank]
  | case2 s h hblank =>
    -- the last line, without a line end
    have hs : s ≠ [] := fun hs => hblank (hs ▸ trim_nil)
    have hline := List.takeWhile_append_dropWhile (p := (· != '\n')) (l := s)
    rw [h, List.append_nil] at hline
    rw [lines_of_not_mem (hline ▸ not_mem_takeWhile_ne s) hs]
    simp [hblank]
  | case3 s c below h line hblank ih =>
    rw [eq_line_append h, lines_append_cons (not_mem_takeWhile_ne s), ih]
    simp [line, hblank]
  | case4 s c below h line hblank ih =>
    rw [eq_line_append h, lines_append_cons (not_mem_takeWhile_ne s),
      lines_append_cons (not_mem_takeWhile_ne s), ih]
    simp [line, hblank]

end Text

/-- The text of a catalog without its blank lines. -/
def withoutBlankLines (text : String) : String :=
  String.ofList (Text.dropBlankLines text.toList)

namespace CatalogLine

variable {s : List Char} {line : CatalogLine}

/-- A line says nothing when it has nothing but white space on it. -/
theorem trim_eq_nil_iff (h : ofText s = .ok line) : trim s = [] ↔ line = .blank := by
  unfold ofText at h
  split at h
  · next hs =>
    cases h
    exact ⟨fun _ => rfl, fun _ => hs⟩
  · next hs =>
    cases h
    simp [hs]
  · next t _ hs =>
    cases h
    -- a line with a mark is a comment, be it an empty one
    have hcomment : ofComment t ≠ .blank := by
      unfold ofComment
      split <;> exact nofun
    exact ⟨fun hnil => (nomatch hnil.symm.trans hs), fun hblank => absurd hblank hcomment⟩
  · next hs =>
    obtain ⟨value, -, rfl⟩ := map_eq_ok_iff.1 h
    simp [hs]
  · next hs _ _ _ =>
    obtain ⟨field, -, h⟩ := bind_eq_ok_iff.1 h
    obtain ⟨value, -, h⟩ := bind_eq_ok_iff.1 h
    cases h
    exact ⟨fun hnil => (hs hnil).elim, nofun⟩

end CatalogLine

/-! ## Blank lines that can be left out -/

open PartialCatalog (Runs opensRecord)

/-- The next line that is neither blank nor of an entry no longer in use. -/
def nextLine? (below : List CatalogLine) : Option CatalogLine :=
  below.find? fun line => line ≠ .blank ∧ line ≠ .obsolete

namespace PartialCatalog

variable {p q r : PartialCatalog} {line : CatalogLine} {ls below : List CatalogLine}

/-- Whether the record that is being read, if it has its text, would be closed without a blank line
just as well: by the end of the text, or it is translated and what follows begins a record. -/
def ClosesWith (p : PartialCatalog) (below : List CatalogLine) : Prop :=
  p.draft.hasMsgid = true →
    ∀ line ∈ nextLine? below, p.draft.hasMsgstr = true ∧ opensRecord line

/-- Whether no blank line among the lines is needed, when they are read from `p` on. -/
def NeedsNoBlank (p : PartialCatalog) (ls : List CatalogLine) : Prop :=
  ∀ above below q, ls = above ++ .blank :: below → Runs p above q → q.ClosesWith below

theorem NeedsNoBlank.tail (h : p.NeedsNoBlank (line :: ls)) (hstep : p.step line = .ok q) :
    q.NeedsNoBlank ls := by
  intro above below r hls hruns
  exact h (line :: above) below r (by rw [hls, List.cons_append]) (.cons hstep hruns)

theorem needsNoBlank_nil : p.NeedsNoBlank [] := by
  intro above below q hls
  simp at hls

theorem needsNoBlank_cons : p.NeedsNoBlank (line :: ls) ↔
    (line = .blank → p.ClosesWith ls) ∧ ∀ q ∈ (p.step line).toOption, q.NeedsNoBlank ls := by
  constructor
  · intro h
    refine ⟨?_, fun q hq => ?_⟩
    · rintro rfl
      exact h [] ls p rfl .nil
    · cases hstep : p.step line with
      | error fault =>
        rw [hstep] at hq
        cases hq
      | ok p' =>
        rw [hstep] at hq
        exact h.tail (hstep.trans (congrArg _ (Option.some.inj hq)))
  · rintro ⟨hblank, hls⟩ above below q heq hruns
    cases above with
    | nil =>
      -- the blank line is the one in front
      obtain ⟨rfl, rfl⟩ := List.cons.inj heq
      obtain rfl : p = q := Except.ok.inj hruns
      exact hblank rfl
    | cons first above =>
      obtain ⟨rfl, rfl⟩ := List.cons.inj heq
      rw [Runs, List.foldlM_cons] at hruns
      obtain ⟨p', hstep, hruns⟩ := bind_eq_ok_iff.1 hruns
      exact hls p' (by rw [hstep]; rfl) above below q rfl hruns

instance decidableOpensRecord : (line : CatalogLine) → Decidable (opensRecord line)
  | .comment _ _ | .field .msgctxt _ | .field .msgid _ => .isTrue trivial
  | .blank | .obsolete | .continuation _ | .field .msgidPlural _ | .field (.msgstr _) _ =>
    .isFalse id

instance decidableNeedsNoBlank :
    (p : PartialCatalog) → (ls : List CatalogLine) → Decidable (p.NeedsNoBlank ls)
  | _, [] => .isTrue needsNoBlank_nil
  | p, _ :: ls =>
    have : DecidablePred (NeedsNoBlank · ls) := fun q => decidableNeedsNoBlank q ls
    have : Decidable (p.ClosesWith ls) := inferInstanceAs (Decidable (_ → _))
    decidable_of_iff _ needsNoBlank_cons.symm

/-- What the state is without the blank lines, when it is `p` with them: the same, or the last
record is still open, and closes before anything else is done. -/
inductive Lags (below : List CatalogLine) : PartialCatalog → PartialCatalog → Prop
  | same (p : PartialCatalog) : Lags below p p
  | behind {q : PartialCatalog} : q.draft.hasMsgid = true → q.ClosesWith below →
      Lags below q.flush q

theorem Lags.finish_eq (h : Lags [] p q) : p.finish = q.finish := by
  cases h with
  | same => rfl
  | behind hmsgid _ =>
    rw [finish, finish, hmsgid]
    rfl

theorem closesWith_cons (hline : line = .blank ∨ line = .obsolete) :
    p.ClosesWith (line :: below) ↔ p.ClosesWith below := by
  have hnext : nextLine? (line :: below) = nextLine? below := by
    rcases hline with rfl | rfl <;> rfl
  rw [ClosesWith, ClosesWith, hnext]

theorem Lags.step_blank (h : Lags (.blank :: ls) p q) (hp : p.NeedsNoBlank (.blank :: ls)) :
    ∃ p', p.step .blank = .ok p' ∧ Lags ls p' q := by
  refine ⟨_, rfl, ?_⟩
  cases h with
  | same =>
    cases hmsgid : p.draft.hasMsgid with
    | false => exact .same p
    | true => exact .behind hmsgid (hp [] ls p rfl .nil)
  | behind hmsgid hcloses => exact .behind hmsgid ((closesWith_cons (.inl rfl)).1 hcloses)

theorem Lags.step (h : Lags (line :: ls) p q) (hline : line ≠ .blank)
    (hstep : p.step line = .ok r) : ∃ r', q.step line = .ok r' ∧ Lags ls r r' := by
  cases h with
  | same => exact ⟨r, hstep, .same r⟩
  | behind hmsgid hcloses =>
    by_cases hobsolete : line = .obsolete
    · subst hobsolete
      cases hstep
      exact ⟨q, rfl, .behind hmsgid ((closesWith_cons (.inr rfl)).1 hcloses)⟩
    · -- the first line that says something begins a record, so it closes the one that is open
      have hnext : line ∈ nextLine? (line :: ls) := by
        simp [nextLine?, hline, hobsolete]
      obtain ⟨hmsgstr, hopens⟩ := hcloses hmsgid line hnext
      have hcomplete : q.IsComplete q.catalog q.draft.record := ⟨rfl, rfl, hmsgid, hmsgstr⟩
      refine ⟨r, ?_, .same r⟩
      rw [(Settles.complete hcomplete).step_eq hopens, ← hcomplete.flush_eq]
      exact hstep

/-- Lines lead to the same end without the blank ones, when none of these is needed. -/
theorem Lags.runs (h : Lags ls p q) (hp : p.NeedsNoBlank ls) (hruns : Runs p ls r) :
    ∃ r', Runs q (ls.filter (· ≠ .blank)) r' ∧ r.finish = r'.finish := by
  induction ls generalizing p q with
  | nil =>
    obtain rfl : p = r := Except.ok.inj hruns
    exact ⟨q, .nil, h.finish_eq⟩
  | cons line ls ih =>
    rw [Runs, List.foldlM_cons] at hruns
    obtain ⟨p', hstep, hruns⟩ := bind_eq_ok_iff.1 hruns
    by_cases hline : line = .blank
    · subst hline
      obtain ⟨p'', hstep', hlags⟩ := h.step_blank hp
      obtain rfl : p'' = p' := Except.ok.inj (hstep'.symm.trans hstep)
      exact ih hlags (hp.tail hstep) hruns
    · obtain ⟨q', hstep', hlags⟩ := h.step hline hstep
      obtain ⟨r', hruns', hfinish⟩ := ih hlags (hp.tail hstep) hruns
      rw [List.filter_cons_of_pos (by simpa using hline)]
      exact ⟨r', .cons hstep' hruns', hfinish⟩

end PartialCatalog

/-! ## Catalogs -/

/-- Whether every line of a text can be read, and no blank line is needed to tell one record from
what stands below it. -/
def NeedsNoBlankLine (text : String) : Prop :=
  ∀ ls : List CatalogLine, (Text.lines text.toList).map CatalogLine.ofText = ls.map .ok →
    PartialCatalog.start.NeedsNoBlank ls

/-- The lines that are left of a text without its blank lines say what they said. -/
theorem map_ofText_filter {lines : List (List Char)} {ls : List CatalogLine}
    (h : lines.map CatalogLine.ofText = ls.map .ok) :
    (lines.filter (trim · ≠ [])).map CatalogLine.ofText = (ls.filter (· ≠ .blank)).map .ok := by
  induction lines generalizing ls with
  | nil =>
    obtain rfl : ls = [] := by simpa using h.symm
    rfl
  | cons s lines ih =>
    cases ls with
    | nil => cases h
    | cons line ls =>
      obtain ⟨hline, hlines⟩ := List.cons.inj h
      have hblank := CatalogLine.trim_eq_nil_iff hline
      by_cases hs : trim s = []
      · simpa [hs, hblank.1 hs] using ih hlines
      · have hne : line ≠ .blank := mt hblank.2 hs
        simpa [hs, hne, hline] using ih hlines

/-- Whether a catalog stays the same when its text is read without the blank lines. -/
def BlankLinesAreOptional (text : String) : Prop :=
  ∀ c, Catalog.parse text = .ok c → Catalog.parse (withoutBlankLines text) = .ok c

/-- Blank lines are optional where none is needed to tell one record from what stands below it. -/
theorem parse_withoutBlankLines {text : String} (h : NeedsNoBlankLine text) :
    BlankLinesAreOptional text := by
  intro c hparse
  obtain ⟨r, hread, rfl⟩ := map_eq_ok_iff.1 hparse
  obtain ⟨ls, hlines, hruns⟩ := PartialCatalog.exists_runs_of_readLines hread
  obtain ⟨r', hruns', hfinish⟩ := (PartialCatalog.Lags.same _).runs (h ls hlines) hruns
  have hlines' := map_ofText_filter hlines
  rw [← Text.lines_dropBlankLines] at hlines'
  rw [Catalog.parse, withoutBlankLines, String.toList_ofList, hruns'.readLines hlines' 1, hfinish]
  rfl

/-- Two translated records and the text of a third one, with blank lines that are not needed. -/
def spacedText : String :=
  "\nmsgid \"a\"\nmsgstr \"A\"\n \n#~ msgid \"z\"\n# more\nmsgid \"b\"\nmsgstr \"B\"\n" ++
    "msgid \"c\"\n\n"

theorem parse_withoutBlankLines_spaced :
    NeedsNoBlankLine spacedText ∧ BlankLinesAreOptional spacedText ∧
      ∃ c, Catalog.parse spacedText = .ok c ∧
        Catalog.parse (withoutBlankLines spacedText) = .ok c := by
  have hlines : (Text.lines spacedText.toList).map CatalogLine.ofText = List.map .ok
      [.blank, .field .msgid "a", .field (.msgstr 0) "A", .blank, .obsolete,
        .comment .translator "more", .field .msgid "b", .field (.msgstr 0) "B", .field .msgid "c",
        .blank] := by
    decide +kernel
  have hspaced : NeedsNoBlankLine spacedText := by
    intro ls hls
    obtain rfl := List.map_inj_right (fun _ _ => Except.ok.inj) |>.1 (hlines.symm.trans hls)
    decide +kernel
  have hoptional := parse_withoutBlankLines hspaced
  have haccepted : (Catalog.parse spacedText).toOption.isSome = true := by decide +kernel
  cases hparse : Catalog.parse spacedText with
  | error fault =>
    rw [hparse] at haccepted
    cases haccepted
  | ok c => exact ⟨hspaced, hoptional, c, rfl, hoptional c hparse⟩

/-- A record without a translation above another one. -/
def untranslatedText : String := "msgid \"a\"\n\nmsgid \"b\"\nmsgstr \"B\"\n"

/-- A record below another one, with its plural above its text. -/
def pluralFirstText : String :=
  "msgid \"a\"\nmsgstr \"A\"\n\nmsgid_plural \"bs\"\nmsgid \"b\"\nmsgstr \"B\"\n"

/-- Blank lines are needed when the records of a text are others without them. -/
theorem not_blankLinesAreOptional_of_records {text : String} (rs : List Record)
    (h : (Catalog.parse text).toOption.map Catalog.records = some rs)
    (hwithout : (Catalog.parse (withoutBlankLines text)).toOption.map Catalog.records ≠ some rs) :
    ¬ BlankLinesAreOptional text := by
  intro hoptional
  cases hparse : Catalog.parse text with
  | error fault =>
    rw [hparse] at h
    cases h
  | ok c =>
    apply hwithout
    rw [hoptional c hparse, ← hparse]
    exact h

/-- Without its blank line the text of a record is replaced by that of the next one, or the record
gets the plural of that. -/
theorem not_blankLinesAreOptional :
    ¬ BlankLinesAreOptional untranslatedText ∧ ¬ BlankLinesAreOptional pluralFirstText := by
  constructor
  · apply not_blankLinesAreOptional_of_records [⟨none, "a", none, [], .empty⟩, .simple "b" "B"]
    · decide +kernel
    · decide +kernel
  · apply not_blankLinesAreOptional_of_records
      [.simple "a" "A", ⟨none, "b", some "bs", ["B"], .empty⟩]
    · decide +kernel
    · decide +kernel

end FluentMerge
