import FluentMerge.Proofs.Document.Outcome
import FluentMerge.Text.Utf8

/-!
# Where the entries of a document lie

Reading a document cuts its text into entries and the blanks between them. `Laid` follows the
recursion of `separateEntries` (`separateEntries_induction`) and says where each entry is cut out;
giving a comment to the entry below it keeps the entries laid. `SpansPartition` says the same of the
whole text, in bytes, and `parse_spansPartition` is the main statement.
-/

namespace FluentMerge

open Read
open Text (byteLength)

/-! ## Blank text and line starts -/

/-- Whether a text is blank: spaces and line ends, nothing else. -/
def IsBlank (s : List Char) : Prop := ∀ c ∈ s, c = ' ' ∨ c = '\n'

/-- Whether a line starts behind this text. -/
def AtLineStart (before : List Char) : Prop := ∀ c ∈ before.getLast?, c = '\n'

theorem isBlank_nil : IsBlank [] := by simp [IsBlank]

theorem isBlank_append {s t : List Char} : IsBlank (s ++ t) ↔ IsBlank s ∧ IsBlank t := by
  simp only [IsBlank, List.mem_append]
  exact ⟨fun h => ⟨fun c hc => h c (.inl hc), fun c hc => h c (.inr hc)⟩,
    fun h c hc => hc.elim (h.1 c) (h.2 c)⟩

theorem isBlank_cons {c : Char} {s : List Char} :
    IsBlank (c :: s) ↔ (c = ' ' ∨ c = '\n') ∧ IsBlank s := by
  simp [IsBlank]

/-- Blank text has one byte for each character. -/
theorem IsBlank.byteLength_eq {s : List Char} (h : IsBlank s) : byteLength s = s.length := by
  induction s with
  | nil => rfl
  | cons c s ih =>
    obtain ⟨hc, hs⟩ := isBlank_cons.1 h
    have hsize : c.utf8Size = 1 := by rcases hc with rfl | rfl <;> rfl
    rw [Text.byteLength_cons, ih hs, hsize, List.length_cons, Nat.add_comm]

theorem skipBlank_of_isBlank {u : List Char} (h : IsBlank u) (s : List Char) :
    skipBlank (u ++ s) = skipBlank s := by
  apply List.dropWhile_append_of_pos
  intro c hc
  rcases h c hc with rfl | rfl <;> rfl

theorem isBlank_skipSpaces {s t : List Char} (h : skipSpaces s = t) :
    ∃ gap, s = gap ++ t ∧ IsBlank gap := by
  refine ⟨s.takeWhile (· == ' '), ?_, ?_⟩
  · rw [← h, skipSpaces, List.takeWhile_append_dropWhile]
  · intro c hc
    have := List.all_takeWhile (l := s) (p := (· == ' '))
    simp only [List.all_eq_true, beq_iff_eq] at this
    exact .inl (this c hc)

theorem atLineStart_nil : AtLineStart [] := by simp [AtLineStart]

theorem atLineStart_concat (s : List Char) : AtLineStart (s ++ ['\n']) := by
  simp [AtLineStart]

/-- What stands before a text that is not empty does not matter. -/
theorem atLineStart_append {s t : List Char} (hs : t = [] → AtLineStart s) (ht : AtLineStart t) :
    AtLineStart (s ++ t) := by
  rcases List.eq_nil_or_concat t with rfl | ⟨u, c, rfl⟩
  · simpa using hs rfl
  · simpa [AtLineStart] using ht

/-- Skipping blank lines leaves blank text behind and stops where a line starts that is not blank.
-/
theorem skipBlankLines_gap (s : List Char) :
    ∃ gap, s = gap ++ (skipBlankLines s).2 ∧ IsBlank gap ∧
      ((skipBlankLines s).2 ≠ [] → AtLineStart gap) ∧
      ∀ c ∈ (skipBlankLines s).2.head?, c ≠ '\n' := by
  fun_induction skipBlankLines s with
  | case1 s h =>
    obtain ⟨gap, rfl, hgap⟩ := isBlank_skipSpaces h
    exact ⟨gap, by simp, hgap, by simp, by simp⟩
  | case2 s t h ih =>
    obtain ⟨spaces, rfl, hspaces⟩ := isBlank_skipSpaces h
    obtain ⟨gap, ht, hgap, hstart, hhead⟩ := ih
    refine ⟨spaces ++ '\n' :: gap, ?_, ?_, ?_, hhead⟩
    · rw [List.append_assoc, List.cons_append, ← ht]
    · exact isBlank_append.2 ⟨hspaces, isBlank_cons.2 ⟨.inr rfl, hgap⟩⟩
    · intro hne
      have := atLineStart_append (s := spaces ++ ['\n']) (fun _ => atLineStart_concat _)
        (hstart hne)
      simpa using this
  | case3 s c t h hc =>
    refine ⟨[], rfl, isBlank_nil, fun _ => atLineStart_nil, ?_⟩
    obtain ⟨spaces, rfl, hspaces⟩ := isBlank_skipSpaces h
    cases spaces with
    | nil => simpa using hc
    | cons d spaces =>
      -- a line end among the leading spaces would have ended them
      intro d' hd'
      obtain rfl : d = d' := by simpa using hd'
      rintro rfl
      have hcons : '\n' = c ∧ spaces ++ c :: t = t := by simpa [skipSpaces] using h
      exact hc hcons.1.symm

theorem skipBlankLines_eq_nil {u : List Char} (h : IsBlank u) : (skipBlankLines u).2 = [] := by
  fun_induction skipBlankLines u with
  | case1 => rfl
  | case2 u t ht ih => exact ih fun c hc => h c ((skipSpaces_suffix u).subset (ht ▸ .tail _ hc))
  | case3 u c t ht hc =>
    have hspace := List.head?_dropWhile_not (· == ' ') u
    rw [← skipSpaces, ht] at hspace
    rcases h c ((skipSpaces_suffix u).subset (ht ▸ .head _)) with rfl | rfl
    · simp at hspace
    · exact absurd rfl hc

/-! ## Places in a text -/

theorem byteLength_pos {s : List Char} (h : s ≠ []) : 0 < byteLength s := by
  obtain ⟨c, t, rfl⟩ := List.exists_cons_of_ne_nil h
  have := c.utf8Size_pos
  simp
  omega

theorem eq_nil_of_byteLength {s : List Char} (h : byteLength s = 0) : s = [] := by
  cases s with
  | nil => rfl
  | cons c t => exact absurd h (Nat.ne_of_gt (byteLength_pos (List.cons_ne_nil c t)))

/-- Of two ways to cut a text one cuts further on. -/
theorem exists_append_of_byteLength_le {s t u v : List Char} (h : s ++ t = u ++ v)
    (hle : byteLength s ≤ byteLength u) : ∃ a, u = s ++ a ∧ t = a ++ v := by
  rcases List.append_eq_append_iff.1 h with ⟨a, rfl, rfl⟩ | ⟨a, rfl, rfl⟩
  · exact ⟨a, rfl, rfl⟩
  · rw [Text.byteLength_append] at hle
    obtain rfl : a = [] := eq_nil_of_byteLength (by omega)
    exact ⟨[], by simp, rfl⟩

/-- Two ways to cut a text at the same byte are one. -/
theorem append_inj_of_byteLength {s t u v : List Char} (h : s ++ t = u ++ v)
    (hlength : byteLength s = byteLength u) : s = u ∧ t = v := by
  obtain ⟨a, rfl, rfl⟩ := exists_append_of_byteLength_le h (Nat.le_of_eq hlength)
  rw [Text.byteLength_append] at hlength
  obtain rfl : a = [] := eq_nil_of_byteLength (by omega)
  exact ⟨(List.append_nil s).symm, rfl⟩

/-! ## What an entry is cut out as -/

theorem consumed_eq {s w rest : List Char} (h : s = w ++ rest) : consumed s rest = w := by
  subst h
  simp [consumed]

@[simp] theorem consumed_self (s : List Char) : consumed s s = [] := consumed_eq rfl

/-- Whether junk with this text ends where it has to: before the first line behind its first
character that an entry can begin on, or with the text. -/
def JunkEnds (body after : List Char) : Prop :=
  (∀ c ∈ after.head?, AtLineStart body ∧ isEntryStart c = true) ∧
    ∀ u c v, body = u ++ '\n' :: c :: v → isEntryStart c = false

/-- Whether an entry with this text ends where it has to. Junk knows its text; every other entry
ends with a line. -/
def Entry.Ends (e : Entry) (body after : List Char) : Prop :=
  match e with
  | .junk j => j.content = String.ofList body ∧ JunkEnds body after
  | _ => ∀ c ∈ after.head?, c = '\n'

theorem Entry.ends_of_ne_junk {e : Entry} {body after : List Char} (he : e.kind ≠ .junk)
    (h : ∀ c ∈ after.head?, c = '\n') : e.Ends body after := by
  cases e with
  | junk j => exact absurd rfl he
  | message m => exact h
  | term t => exact h
  | comment level c => exact h

/-- An entry that is not junk ends with a line. -/
theorem Entry.Ends.head_after {e : Entry} {body after : List Char} (h : e.Ends body after)
    (he : e.kind ≠ .junk) : ∀ c ∈ after.head?, c = '\n' := by
  cases e with
  | junk j => exact absurd rfl he
  | message m => exact h
  | term t => exact h
  | comment level c => exact h

namespace Read

/-- Reading an entry never gives junk. -/
theorem entry_kind {s rest : List Char} {e : Entry} (h : outcome (entry s) = .ok (e, rest)) :
    e.kind ≠ .junk := by
  cases entryRead_of_entry h with
  | comment hcomment =>
    obtain ⟨level, lines, -, -, rfl⟩ := comment_cases hcomment
    simp [Entry.kind]
  | term hterm => simp [Entry.kind]
  | message hc hmessage => simp [Entry.kind]

/-- Reading the end of a line takes a line end away, or nothing at the end of the text. -/
theorem lineEnd_cut {s : List Char} {r : Reading Unit s} (h : lineEnd s = .ok r) :
    r.rest = s.tail ∧ ∀ c ∈ s.head?, c = '\n' := by
  cases s with
  | nil =>
    cases h
    exact ⟨rfl, by simp⟩
  | cons c s =>
    simp only [lineEnd] at h
    split at h
    · next hc =>
      cases h
      exact ⟨rfl, by simpa using hc⟩
    · cases h

end Read

/-- Junk is cut off the front of a text where it has to end. -/
theorem afterJunk_cut (s : List Char) :
    ∃ content, s = content ++ afterJunk s ∧ JunkEnds content (afterJunk s) := by
  induction s with
  | nil => exact ⟨[], rfl, by simp [afterJunk], by simp⟩
  | cons c s ih =>
    by_cases h : (c == '\n' && s.head?.any isEntryStart) = true
    · rw [afterJunk, if_pos h]
      simp only [Bool.and_eq_true, beq_iff_eq] at h
      obtain ⟨rfl, h⟩ := h
      refine ⟨['\n'], rfl, ?_, ?_⟩
      · intro d hd
        rw [Option.mem_def] at hd
        exact ⟨atLineStart_concat [], by simpa [hd] using h⟩
      · rintro (_ | ⟨d, _ | u⟩) c v hv <;> simp at hv
    · rw [afterJunk, if_neg h]
      obtain ⟨content, hs, hend, hinner⟩ := ih
      refine ⟨c :: content, by rw [List.cons_append, ← hs], ?_, ?_⟩
      · intro d hd
        obtain ⟨hstart, hd'⟩ := hend d hd
        refine ⟨atLineStart_append (s := [c]) ?_ hstart, hd'⟩
        rintro rfl
        -- junk is never empty, so the text behind `c` would have to be empty too
        rw [List.nil_append] at hs
        cases s with
        | nil => simp [afterJunk] at hd
        | cons a s =>
          have := afterJunk_shorter a s
          rw [← hs] at this
          simp at this
      · rintro (_ | ⟨a, u⟩) d v hv
        · -- the line behind `c` itself: `afterJunk` did not stop there
          obtain ⟨rfl, rfl⟩ : c = '\n' ∧ content = d :: v := by simpa using hv
          have hd : s.head? = some d := by rw [hs]; rfl
          simpa [hd] using h
        · obtain ⟨-, hv⟩ : c = a ∧ content = u ++ '\n' :: d :: v := by simpa using hv
          exact hinner u d v hv

/-- How the next entry is cut out of `body ++ after`, and what is left behind it: an entry ends with
its last line, and the end of that is taken; junk ends where it has to. -/
inductive CutsNext (start : Nat) (body after : List Char) : Entry → List Char → Prop
  | entry {e : Entry} : outcome (entry (body ++ after)) = .ok (e, after) →
      (∀ c ∈ after.head?, c = '\n') →
      CutsNext start body after (e.withSpan ⟨start, start + byteLength body⟩) after.tail
  | junk {fault : SyntaxError} : outcome (entryLine (body ++ after)) = .error fault →
      JunkEnds body after →
      CutsNext start body after
        (.junk ⟨String.ofList body, [fault.message], some ⟨start, start + byteLength body⟩⟩) after

/-- The next entry is cut off the front of a text that is not empty. -/
theorem nextEntry_cut (start : Nat) {s : List Char} (hs : s ≠ []) :
    ∃ body after, s = body ++ after ∧ body ≠ [] ∧
      CutsNext start body after (nextEntry start s).1 (nextEntry start s).2 := by
  unfold nextEntry
  split
  · next r h =>
    obtain ⟨e, he, h⟩ := bind_eq_ok_iff.1 h
    obtain ⟨close, hclose, h⟩ := bind_eq_ok_iff.1 h
    cases h
    -- the entry is what was read, without the end of its last line
    have hcut := consumed_append e.isSuffix
    have hentry : outcome (entry (consumed s e.rest ++ e.rest)) = .ok (e.value, e.rest) := by
      rw [hcut, he]
      rfl
    refine ⟨consumed s e.rest, e.rest, hcut.symm, ?_, ?_⟩
    · intro hnil
      have hshorter := entry_shorter he
      rw [hnil, List.nil_append] at hcut
      rw [hcut] at hshorter
      exact Nat.lt_irrefl _ hshorter
    · obtain ⟨hrest, hafter⟩ := lineEnd_cut hclose
      rw [Reading.rest_within, Reading.rest_map, hrest]
      exact .entry hentry hafter
  · next fault h =>
    -- junk is all the text up to the next line that can begin an entry
    obtain ⟨content, hcut, hends⟩ := afterJunk_cut s
    have hcontent : consumed s (afterJunk s) = content := consumed_eq hcut
    have hfault : outcome (entryLine (content ++ afterJunk s)) = .error fault := by
      rw [← hcut, h]
      rfl
    refine ⟨content, afterJunk s, hcut, ?_, ?_⟩
    · rintro rfl
      obtain ⟨c, t, rfl⟩ := List.exists_cons_of_ne_nil hs
      have := afterJunk_shorter c t
      rw [List.nil_append] at hcut
      rw [← hcut] at this
      simp at this
    · rw [hcontent]
      exact .junk hfault hends

namespace CutsNext

variable {start : Nat} {body after rest : List Char} {e : Entry}

theorem span_eq (h : CutsNext start body after e rest) :
    e.span = some ⟨start, start + byteLength body⟩ := by
  cases h with
  | entry => exact Entry.span_withSpan _ _
  | junk => rfl

theorem ends (h : CutsNext start body after e rest) : e.Ends body after := by
  cases h with
  | @entry e he hafter =>
    exact Entry.ends_of_ne_junk (by simpa using entry_kind he) hafter
  | junk _ hends => exact ⟨rfl, hends⟩

/-- What is left begins a line: it is the text behind the entry, without the line end that closes
an entry. -/
theorem rest_cases (h : CutsNext start body after e rest) :
    after = rest ∧ (after ≠ [] → AtLineStart body) ∨ after = '\n' :: rest := by
  cases h with
  | entry _ hafter =>
    cases after with
    | nil => exact .inl ⟨rfl, fun hne => absurd rfl hne⟩
    | cons c after =>
      obtain rfl := hafter c rfl
      exact .inr rfl
  | junk _ hends =>
    refine .inl ⟨rfl, fun hne => ?_⟩
    obtain ⟨c, t, rfl⟩ := List.exists_cons_of_ne_nil hne
    exact (hends.1 c rfl).1

end CutsNext

theorem nextEntry_suffix (start : Nat) (c : Char) (t : List Char) :
    (nextEntry start (c :: t)).2 <:+ c :: t := by
  obtain ⟨body, after, hcut, -, h⟩ := nextEntry_cut start (List.cons_ne_nil c t)
  rcases h.rest_cases with ⟨hafter, -⟩ | hafter
  · refine ⟨body, ?_⟩
    rw [← hafter]
    exact hcut.symm
  · refine ⟨body ++ ['\n'], ?_⟩
    rw [List.append_assoc, List.singleton_append, ← hafter]
    exact hcut.symm

/-- Induction along the entries of a text. Blank text in front of an entry is skipped, and then the
entry is cut off. Behind it the end of its line counts as blank text. -/
theorem separateEntries_induction {motive : List Char → List Entry → List Char → Prop}
    (nil : ∀ before s, IsBlank s → motive before [] s)
    (skip : ∀ before gap es s, IsBlank gap → motive (before ++ gap) es s →
      motive before es (gap ++ s))
    (cons : ∀ before body after e rest es, AtLineStart before → body ≠ [] →
      (∀ c ∈ body.head?, c ≠ '\n') → CutsNext (byteLength before) body after e rest →
      motive (before ++ body) es after → motive before (e :: es) (body ++ after))
    (before s : List Char) (hstart : s ≠ [] → AtLineStart before) :
    motive before (separateEntries (byteLength before) s) s := by
  generalize hoffset : byteLength before = offset
  fun_induction separateEntries offset s generalizing before with
  | case1 offset s h =>
    obtain ⟨gap, hs, hgap, -⟩ := skipBlankLines_gap s
    rw [h, List.append_nil] at hs
    exact nil before s (hs ▸ hgap)
  | case2 offset s c t h start next ih =>
    subst hoffset
    obtain ⟨gap, hs, hgap, hgapStart, hhead⟩ := skipBlankLines_gap s
    rw [h] at hs hgapStart hhead
    have hbegin : start = byteLength (before ++ gap) := by
      simp only [start, consumed_eq hs, Text.byteLength_append]
    obtain ⟨body, after, hcut, hne, hnext⟩ := nextEntry_cut start (List.cons_ne_nil c t)
    have hbody : ∀ d ∈ body.head?, d ≠ '\n' := by
      obtain ⟨d, u, rfl⟩ := List.exists_cons_of_ne_nil hne
      rw [List.cons_append, List.cons.injEq] at hcut
      simpa [← hcut.1] using hhead
    have hline : AtLineStart (before ++ gap) :=
      atLineStart_append (fun _ => hstart (by simp [hs])) (hgapStart (List.cons_ne_nil c t))
    have hplace : start + byteLength body = byteLength (before ++ gap ++ body) := by
      rw [hbegin, ← Text.byteLength_append]
    have hbelow : motive (before ++ gap ++ body)
        (separateEntries (start + byteLength (consumed (c :: t) next.2)) next.2) after := by
      -- junk takes its last line end with it, any other entry leaves it to the blanks
      rcases hnext.rest_cases with ⟨hafter, hbodyStart⟩ | hafter
      · have hcons : consumed (c :: t) next.2 = body := consumed_eq (hafter ▸ hcut)
        have htail := ih (before ++ gap ++ body)
          (fun hrest => atLineStart_append (fun h => absurd h hne) (hbodyStart (hafter ▸ hrest)))
          (by rw [hcons, hplace])
        rw [hafter]
        exact htail
      · have hcons : consumed (c :: t) next.2 = body ++ ['\n'] :=
          consumed_eq (by rw [hcut, hafter, List.append_assoc, List.singleton_append])
        have htail := ih (before ++ gap ++ body ++ ['\n']) (fun _ => atLineStart_concat _)
          (by rw [hcons, Text.byteLength_append _ ['\n'], Text.byteLength_append body, ← hplace,
            Nat.add_assoc])
        rw [hafter]
        exact skip _ ['\n'] _ _ (by simp [IsBlank]) htail
    have hall := skip _ _ _ _ hgap (cons _ _ _ _ _ _ hline hne hbody (hbegin ▸ hnext) hbelow)
    rw [← hcut, ← hs, ← hbegin] at hall
    exact hall

/-! ## Laid entries -/

/-- `Laid before es s`: the entries `es` lie one behind the other in `s`, which stands behind
`before`. Between them is blank text, each begins a line, and each ends where it has to. -/
inductive Laid : List Char → List Entry → List Char → Prop
  | nil {before s : List Char} : IsBlank s → Laid before [] s
  | cons {before gap body after s : List Char} {e : Entry} {es : List Entry} :
      s = gap ++ body ++ after → IsBlank gap → AtLineStart (before ++ gap) →
      body ≠ [] → (∀ c ∈ body.head?, c ≠ '\n') →
      e.span = some ⟨byteLength (before ++ gap), byteLength (before ++ gap ++ body)⟩ →
      e.Ends body after → Laid (before ++ gap ++ body) es after → Laid before (e :: es) s

/-- Blank text in front of the entries may as well be counted as theirs. -/
theorem Laid.of_blank {before blank s : List Char} {es : List Entry}
    (h : Laid (before ++ blank) es s) (hblank : IsBlank blank) : Laid before es (blank ++ s) := by
  cases h with
  | nil hs => exact .nil (isBlank_append.2 ⟨hblank, hs⟩)
  | @cons _ gap body after _ e es hs hgap hstart hne hhead hspan hends htail =>
    refine @Laid.cons _ (blank ++ gap) body after _ _ _ ?_
      (isBlank_append.2 ⟨hblank, hgap⟩) ?_ hne hhead ?_ hends ?_
    · simp [hs]
    · simpa using hstart
    · simpa using hspan
    · simpa using htail

/-- The entries of a text lie in it one behind the other. -/
theorem separateEntries_laid (before s : List Char) (hstart : s ≠ [] → AtLineStart before) :
    Laid before (separateEntries (byteLength before) s) s := by
  apply separateEntries_induction _ _ _ before s hstart
  · intro before s hs
    exact .nil hs
  · intro before gap es s hgap h
    exact h.of_blank hgap
  · intro before body after e rest es hline hne hhead hnext h
    refine @Laid.cons before [] body after _ e es rfl isBlank_nil ?_ hne hhead ?_ hnext.ends ?_
    · rwa [List.append_nil]
    · rw [List.append_nil, Text.byteLength_append]
      exact hnext.span_eq
    · rwa [List.append_nil]

theorem attachComments_of_ne {e : Entry} (h : ∀ c, e ≠ .comment .entry c) (es : List Entry) :
    attachComments (e :: es) = e :: attachComments es := by
  rw [attachComments]
  intro c below rest he
  exact absurd he (h c)

/-- Only a message or a term takes a comment, and its place then begins where the comment does. -/
theorem Comment.attachTo?_cases {c : Comment} {below e : Entry} (h : c.attachTo? below = some e) :
    (∃ m, below = .message m ∧
      e = .message { m with comment := some c, span := c.spanWith m.span }) ∨
    ∃ t, below = .term t ∧ e = .term { t with comment := some c, span := c.spanWith t.span } := by
  cases below with
  | message m =>
    rw [attachTo?] at h
    split at h
    · exact .inl ⟨m, rfl, (Option.some.inj h).symm⟩
    · cases h
  | term t =>
    rw [attachTo?] at h
    split at h
    · exact .inr ⟨t, rfl, (Option.some.inj h).symm⟩
    · cases h
  | comment level c => cases h
  | junk j => cases h

theorem Comment.attachTo?_kind {c : Comment} {below e : Entry} (h : c.attachTo? below = some e) :
    e.kind = below.kind ∧ below.kind ≠ .junk ∧ e.span = c.spanWith below.span := by
  obtain ⟨m, rfl, rfl⟩ | ⟨t, rfl, rfl⟩ := attachTo?_cases h
  · exact ⟨rfl, by simp [Entry.kind], rfl⟩
  · exact ⟨rfl, by simp [Entry.kind], rfl⟩

/-- Giving comments to the entries below them keeps the entries laid: such an entry then reaches
over the blank text between the two. -/
theorem Laid.attachComments {before s : List Char} {es : List Entry} (h : Laid before es s) :
    Laid before (attachComments es) s := by
  fun_induction FluentMerge.attachComments es generalizing before s with
  | case1 => exact h
  | case2 c below rest e he ih =>
    obtain ⟨hkind, hjunk, hspan⟩ := Comment.attachTo?_kind he
    cases h with
    | @cons _ gap body after _ _ _ hs hgap hstart hne hhead hcspan hcends hrest =>
      cases hrest with
      | @cons _ gap' body' after' _ _ _ hs' _ _ _ _ hspan' hends' htail =>
        -- the comment, the gap below it and the entry are one body now
        refine @Laid.cons _ gap (body ++ gap' ++ body') after' _ _ _ ?_ hgap hstart
          (by simp [hne]) ?_ ?_ ?_ ?_
        · simp [hs, hs']
        · obtain ⟨d, u, rfl⟩ := List.exists_cons_of_ne_nil hne
          simpa using hhead
        · have hc : c.span = _ := hcspan
          simp only [hspan, hspan', Comment.spanWith, hc]
          simp
        · -- neither a comment nor what it belongs to is junk, so it ends as before
          exact Entry.ends_of_ne_junk (hkind ▸ hjunk) (hends'.head_after hjunk)
        · simpa using ih htail
  | case3 c below rest he ih =>
    cases h with
    | cons hs hgap hstart hne hhead hspan hends htail =>
      exact .cons hs hgap hstart hne hhead hspan hends (ih htail)
  | case4 e rest _ ih =>
    cases h with
    | cons hs hgap hstart hne hhead hspan hends htail =>
      exact .cons hs hgap hstart hne hhead hspan hends (ih htail)

/-! ## The partition of a text -/

/-- A span cuts `body` out of a text, with `before` in front of it and `after` behind it, so that
both its ends fall between two characters. -/
structure Span.Cuts (sp : Span) (s before body after : List Char) : Prop where
  text : s = before ++ body ++ after
  start : sp.start = byteLength before
  stop : sp.stop = byteLength (before ++ body)

/-- The entries `es` and the blanks between them partition the text `s`. -/
structure SpansPartition (s : List Char) (es : List Entry) : Prop where
  /-- Each entry has a span that is not empty and lies in the text. It begins a line and ends where
  an entry of its kind has to. -/
  placed : ∀ e ∈ es, ∃ sp before body after, e.span = some sp ∧ sp.Cuts s before body after ∧
    sp.start < sp.stop ∧ sp.stop ≤ byteLength s ∧ AtLineStart before ∧ e.Ends body after
  /-- Each entry begins after the ones in front of it begin, and not before these end. -/
  ordered : es.Pairwise fun e f => ∀ a ∈ e.span, ∀ b ∈ f.span, a.start < b.start ∧ a.stop ≤ b.start
  /-- A byte that no span covers is a space or a line end. -/
  outside : ∀ i b, (Utf8.encode s)[i]? = some b →
    (∀ e ∈ es, ∀ sp ∈ e.span, ¬ (sp.start ≤ i ∧ i < sp.stop)) → b = 0x20 ∨ b = 0x0a
  /-- Between two neighbours that are not junk stands a line end. -/
  neighbours : ∀ e f, [e, f] <:+: es → e.kind ≠ .junk → f.kind ≠ .junk →
    ∃ a b before between after, e.span = some a ∧ f.span = some b ∧
      s = before ++ between ++ after ∧ a.stop = byteLength before ∧
      b.start = byteLength (before ++ between) ∧ '\n' ∈ between

theorem length_encode (s : List Char) : (Utf8.encode s).length = byteLength s := by
  induction s with
  | nil => rfl
  | cons c s ih =>
    rw [Utf8.encode] at *
    simp [ih]

theorem encode_append (s t : List Char) :
    Utf8.encode (s ++ t) = Utf8.encode s ++ Utf8.encode t := by
  simp [Utf8.encode]

/-- The bytes of blank text are spaces and line ends. -/
theorem IsBlank.byte {s : List Char} (h : IsBlank s) {b : UInt8} (hb : b ∈ Utf8.encode s) :
    b = 0x20 ∨ b = 0x0a := by
  obtain ⟨c, hc, hb⟩ := List.mem_flatMap.1 hb
  have hspace : String.utf8EncodeChar ' ' = [0x20] := by decide
  have hline : String.utf8EncodeChar '\n' = [0x0a] := by decide
  rcases h c hc with rfl | rfl
  · exact .inl (by simpa [hspace] using hb)
  · exact .inr (by simpa [hline] using hb)

namespace Laid

variable {before s : List Char} {es : List Entry}

/-- Every entry is cut out of the text, behind what stands before it. -/
theorem placed (h : Laid before es s) :
    ∀ e ∈ es, ∃ sp pre body after, e.span = some sp ∧ sp.Cuts (before ++ s) pre body after ∧
      body ≠ [] ∧ AtLineStart pre ∧ e.Ends body after ∧ byteLength before ≤ sp.start := by
  induction h with
  | nil => simp
  | @cons before gap body after s e es hs _ hstart hne _ hspan hends htail ih =>
    intro f hf
    rcases List.mem_cons.1 hf with rfl | hf
    · refine ⟨_, before ++ gap, body, after, hspan, ⟨by simp [hs], rfl, rfl⟩, hne, hstart, hends,
        ?_⟩
      simp
    · obtain ⟨sp, pre, body', after', hsp, hcut, hne', hstart', hends', hle⟩ := ih f hf
      refine ⟨sp, pre, body', after', hsp, ⟨?_, hcut.start, hcut.stop⟩, hne', hstart', hends', ?_⟩
      · rw [← hcut.text, hs]
        simp
      · simp only [Text.byteLength_append] at hle
        omega

/-- Every entry begins where those in front of it have ended. -/
theorem ordered (h : Laid before es s) :
    es.Pairwise fun e f => ∀ a ∈ e.span, ∀ b ∈ f.span, a.start < b.start ∧ a.stop ≤ b.start := by
  induction h with
  | nil => exact .nil
  | @cons before gap body after s e es _ _ _ hne _ hspan _ htail ih =>
    refine List.pairwise_cons.2 ⟨?_, ih⟩
    intro f hf a ha b hb
    obtain ⟨sp, _, _, _, hsp, -, -, -, -, hle⟩ := htail.placed f hf
    obtain rfl : sp = b := by simpa [hsp] using hb
    obtain rfl : _ = a := by simpa [hspan] using ha
    have := byteLength_pos hne
    simp only [Text.byteLength_append] at hle ⊢
    omega

/-- What the entries do not cover is blank. -/
theorem outside (h : Laid before es s) :
    ∀ i b, (Utf8.encode s)[i]? = some b →
      (∀ e ∈ es, ∀ sp ∈ e.span,
        ¬ (sp.start ≤ byteLength before + i ∧ byteLength before + i < sp.stop)) →
      b = 0x20 ∨ b = 0x0a := by
  induction h with
  | nil hs =>
    intro i b hb _
    exact hs.byte (List.mem_of_getElem? hb)
  | @cons before gap body after s e es hs hgap _ _ _ hspan _ _ ih =>
    intro i b hb hout
    rw [hs, encode_append, encode_append, List.append_assoc, List.getElem?_append,
      length_encode] at hb
    split at hb
    · exact hgap.byte (List.mem_of_getElem? hb)
    · next hi =>
      rw [List.getElem?_append, length_encode] at hb
      split at hb
      · -- within the entry's own text
        have := hout e (by simp) _ hspan
        simp only [Text.byteLength_append] at this
        omega
      · apply ih _ b hb
        intro f hf sp hsp
        have hplace : byteLength (before ++ gap ++ body) + (i - byteLength gap - byteLength body) =
            byteLength before + i := by
          simp only [Text.byteLength_append]
          omega
        rw [hplace]
        exact hout f (List.mem_cons_of_mem _ hf) sp hsp

/-- Behind an entry that is not junk a line ends before the next entry begins. -/
theorem neighbours (h : Laid before es s) :
    ∀ e f, [e, f] <:+: es → e.kind ≠ .junk →
      ∃ a b pre between after, e.span = some a ∧ f.span = some b ∧
        before ++ s = pre ++ between ++ after ∧ a.stop = byteLength pre ∧
        b.start = byteLength (pre ++ between) ∧ '\n' ∈ between := by
  induction h with
  | nil => simp
  | @cons before gap body after s e es hs _ _ _ _ hspan hends htail ih =>
    intro e' f hinfix hkind
    rcases List.infix_cons_iff.1 hinfix with hprefix | hinfix
    · obtain ⟨rfl, rest, rfl⟩ := List.cons_prefix_cons.1 hprefix
      cases htail with
      | @cons _ gap' body' after' _ _ _ hs' _ _ hne' hhead' hspan' _ _ =>
        refine ⟨_, _, before ++ gap ++ body, gap', body' ++ after', hspan, hspan', ?_, rfl, rfl, ?_⟩
        · simp [hs, hs']
        · have hline := hends.head_after hkind
          cases gap' with
          | nil =>
            -- the next entry would begin with the line end that closes this one
            obtain ⟨d, u, rfl⟩ := List.exists_cons_of_ne_nil hne'
            exact absurd (hline d (by simp [hs'])) (hhead' d (by simp))
          | cons d gap' =>
            rw [hline d (by simp [hs'])]
            simp
    · obtain ⟨a, b, pre, between, after', ha, hb, htext, hstop, hbegin, hmem⟩ :=
        ih e' f hinfix hkind
      refine ⟨a, b, pre, between, after', ha, hb, ?_, hstop, hbegin, hmem⟩
      rw [← htext, hs]
      simp

end Laid

/-- The entries of a document lie in its text. -/
theorem parse_laid (text : String) : Laid [] (Document.parse text).entries text.toList :=
  (separateEntries_laid [] text.toList fun _ => atLineStart_nil).attachComments

/-- Reading a document cuts its whole text into entries and blanks. -/
theorem parse_spansPartition (text : String) :
    SpansPartition text.toList (Document.parse text).entries := by
  have h := parse_laid text
  refine ⟨?_, h.ordered, ?_, ?_⟩
  · intro e he
    obtain ⟨sp, before, body, after, hspan, hcut, hne, hstart, hends, -⟩ := h.placed e he
    refine ⟨sp, before, body, after, hspan, hcut, ?_, ?_, hstart, hends⟩
    · have := byteLength_pos hne
      rw [hcut.start, hcut.stop, Text.byteLength_append]
      omega
    · have htext := congrArg byteLength hcut.text
      rw [List.nil_append] at htext
      rw [hcut.stop, htext, Text.byteLength_append (before ++ body)]
      omega
  · simpa using h.outside
  · intro e f hinfix he _
    exact h.neighbours e f hinfix he

end FluentMerge
