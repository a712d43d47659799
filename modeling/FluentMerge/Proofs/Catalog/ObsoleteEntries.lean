import FluentMerge.Proofs.Catalog.BlankLines
import FluentMerge.Proofs.Catalog.ClosedRecords
import FluentMerge.Proofs.Document.Layout

/-!
# Entries no longer in use

The lines that are marked with `#~` are skipped, but the other lines of such an entry, its comments
and flags, are read like any comment: they stay on the record that is being read. What a block of
these lines does is therefore told by where its comments go. They wait (`GainsNotes.step`) until a
record is closed and are part of it (`GainsNotes.runs`). So a text without the block is still read,
as the same catalog but for comments of one record, and it is the very same only where the block has
no comments or no record takes them (`parse_withoutObsoleteBlock`).
-/

namespace FluentMerge

open Text (lines trim)

/-! ## Comments between comments -/

namespace Notes

/-- The comments of `m` and behind them, kind by kind, those of `n`. -/
def append (m n : Notes) : Notes :=
  ⟨m.translator ++ n.translator, m.extracted ++ n.extracted, m.reference ++ n.reference,
    m.flag ++ n.flag, m.previous ++ n.previous⟩

theorem append_empty (m : Notes) : m.append .empty = m := by
  simp [append, empty]

theorem add_append (m n : Notes) (text : String) (kind : NoteKind) :
    (m.append n).add text kind = m.append (n.add text kind) := by
  cases kind <;> simp [append, add]

theorem foldl_add (m : Notes) (notes : List (NoteKind × String)) :
    notes.foldl (fun n note => n.add note.2 note.1) m = m.append (ofLines notes) := by
  have hbehind (n : Notes) : notes.foldl (fun n note => n.add note.2 note.1) (m.append n) =
      m.append (notes.foldl (fun n note => n.add note.2 note.1) n) := by
    induction notes generalizing n with
    | nil => rfl
    | cons note notes ih => rw [List.foldl_cons, add_append, ih, List.foldl_cons]
  have hempty := hbehind .empty
  rwa [append_empty] at hempty

/-- Comments between others are seen, unless there are none. -/
theorem append_append_eq_iff (before n after : Notes) :
    before.append (n.append after) = before.append after ↔ n = .empty := by
  cases n
  simp [append, empty]

end Notes

/-- Whether the record `s` is `r` with the comments `n` somewhere between its own. -/
def Record.GainsNotes (n : Notes) (r s : Record) : Prop :=
  ∃ before after : Notes, r.comments = before.append after ∧
    s = { r with comments := before.append (n.append after) }

/-- Comments do not tell records apart. -/
theorem Record.GainsNotes.place_eq {n : Notes} {r s : Record} (h : r.GainsNotes n s) :
    s.context = r.context ∧ s.msgid = r.msgid := by
  obtain ⟨before, after, -, rfl⟩ := h
  exact ⟨rfl, rfl⟩

/-- The records `ss` are `rs`, but for comments that the first of them has gained. -/
inductive GainFirst (n : Notes) : List Record → List Record → Prop
  | nil : GainFirst n [] []
  | cons {r s : Record} (h : r.GainsNotes n s) (rs : List Record) : GainFirst n (r :: rs) (s :: rs)

namespace PartialCatalog

variable {p q r : PartialCatalog} {line : CatalogLine} {ls : List CatalogLine} {n : Notes}

/-- Whether the state `q` is `p` with the comments `n` on the record that is being read. -/
def GainsNotes (n : Notes) (p q : PartialCatalog) : Prop :=
  ∃ before after : Notes, p.draft.record.comments = before.append after ∧
    q = p.withNotes (before.append (n.append after))

theorem GainsNotes.catalog (h : p.GainsNotes n q) : q.catalog = p.catalog := by
  obtain ⟨before, after, -, rfl⟩ := h
  rfl

theorem GainsNotes.record (h : p.GainsNotes n q) : p.draft.record.GainsNotes n q.draft.record := by
  obtain ⟨before, after, hnotes, rfl⟩ := h
  exact ⟨before, after, hnotes, rfl⟩

theorem GainsNotes.closesRecord (h : p.GainsNotes n q) (line : CatalogLine) :
    q.closesRecord line = p.closesRecord line := by
  obtain ⟨before, after, -, rfl⟩ := h
  cases line with
  | field field value => cases field <;> rfl
  | _ => rfl

/-- Comments that are gained wait on the record that is being read, and those that come behind them
stand behind them. -/
theorem GainsNotes.step (h : p.GainsNotes n q) (hopen : p.closesRecord line = false)
    (hstep : q.step line = .ok r) : ∃ p', p.step line = .ok p' ∧ p'.GainsNotes n r := by
  obtain ⟨before, after, hnotes, rfl⟩ := h
  obtain ⟨c, ⟨record, hasMsgid, hasMsgstr, openField⟩⟩ := p
  cases line with
  | blank =>
    obtain rfl : hasMsgid = false := hopen
    cases hstep
    exact ⟨_, rfl, before, after, hnotes, rfl⟩
  | obsolete =>
    cases hstep
    exact ⟨_, rfl, before, after, hnotes, rfl⟩
  | comment kind text =>
    obtain rfl : hasMsgstr = false := hopen
    cases hstep
    -- a comment read now goes behind those that were gained
    have hadd : (before.append (n.append after)).add text kind =
        before.append (n.append (after.add text kind)) := by
      rw [Notes.add_append, Notes.add_append]
    refine ⟨_, rfl, before, after.add text kind, ?_, ?_⟩
    · rw [← Notes.add_append]
      exact congrArg (Notes.add · text kind) hnotes
    · rw [← hadd]
      rfl
  | continuation value =>
    obtain ⟨field, hfield, rfl⟩ := step_continuation_eq_ok hstep
    obtain rfl : openField = some field := hfield
    refine ⟨_, rfl, before, after, ?_, ?_⟩
    · rw [← hnotes]
      cases field <;> rfl
    · cases field <;> rfl
  | field field value =>
    cases field with
    | msgstr form =>
      obtain ⟨hmsgid, rfl⟩ := step_msgstr_eq_ok hstep
      obtain rfl : hasMsgid = true := hmsgid
      exact ⟨_, rfl, before, after, hnotes, rfl⟩
    | msgidPlural =>
      cases hstep
      exact ⟨_, rfl, before, after, hnotes, rfl⟩
    | msgctxt =>
      -- no translation has been read, so the record above is not closed
      obtain rfl : hasMsgstr = false := hopen
      cases hstep
      exact ⟨_, rfl, before, after, hnotes, rfl⟩
    | msgid =>
      obtain rfl : hasMsgstr = false := hopen
      cases hstep
      exact ⟨_, rfl, before, after, hnotes, rfl⟩

/-- A line that closes a record does what it does when nothing is being read. -/
theorem step_of_closesRecord (h : p.closesRecord line = true) :
    p.step line = p.flush.step line := by
  cases line with
  | blank =>
    have hmsgid : p.draft.hasMsgid = true := h
    simp only [PartialCatalog.step, hmsgid]
    rfl
  | comment kind text =>
    have hmsgstr : p.draft.hasMsgstr = true := h
    simp only [PartialCatalog.step, hmsgstr]
    rfl
  | field field value =>
    cases field with
    | msgctxt =>
      have hmsgstr : p.draft.hasMsgstr = true := h
      simp only [PartialCatalog.step, hmsgstr]
      rfl
    | msgid =>
      have hmsgstr : p.draft.hasMsgstr = true := h
      simp only [PartialCatalog.step, hmsgstr]
      rfl
    | msgidPlural => cases h
    | msgstr form => cases h
  | obsolete => cases h
  | continuation value => cases h

theorem GainsNotes.gainFirst_closedBy (h : p.GainsNotes n q) (line : CatalogLine) :
    GainFirst n (p.closedBy line) (q.closedBy line) := by
  rw [closedBy, closedBy, h.closesRecord]
  split
  · exact .cons h.record []
  · exact .nil

/-- Comments that are gained go to the first record that is closed, and nothing else changes. -/
theorem GainsNotes.runs (h : p.GainsNotes n q) (hruns : Runs q ls r) :
    ∃ r', Runs p ls r' ∧ GainFirst n (p.closed ls) (q.closed ls) := by
  induction ls generalizing p q with
  | nil => exact ⟨p, .nil, h.gainFirst_closedBy .blank⟩
  | cons line ls ih =>
    rw [Runs, List.foldlM_cons] at hruns
    obtain ⟨q', hstep, hruns⟩ := bind_eq_ok_iff.1 hruns
    cases hcloses : p.closesRecord line with
    | false =>
      -- nothing is closed yet, and the comments wait on
      obtain ⟨p', hstep', h'⟩ := h.step hcloses hstep
      obtain ⟨r', hruns', hclosed⟩ := ih h' hruns
      have hnone : p.closedBy line = [] := by rw [closedBy, hcloses]; rfl
      have hnone' : q.closedBy line = [] := by rw [closedBy, h.closesRecord, hcloses]; rfl
      refine ⟨r', .cons hstep' hruns', ?_⟩
      rwa [closed_cons hstep', closed_cons hstep, hnone, hnone']
    | true =>
      -- the record that has gained them is closed, and nothing is being read any more
      rw [step_of_closesRecord (h.closesRecord line ▸ hcloses)] at hstep
      obtain ⟨d, hstep'⟩ := exists_step_of_draft hstep p.flush.catalog
      obtain ⟨⟨r', hruns'⟩, hclosed⟩ := closed_congr (p := q') (q := ⟨d, q'.draft⟩) rfl hruns
      have hp : p.step line = .ok ⟨d, q'.draft⟩ := (step_of_closesRecord hcloses).trans hstep'
      rw [← step_of_closesRecord (h.closesRecord line ▸ hcloses)] at hstep
      refine ⟨r', .cons hp hruns', ?_⟩
      rw [closed_cons hp, closed_cons hstep, hclosed, closedBy, closedBy, h.closesRecord,
        if_pos hcloses, if_pos hcloses]
      exact .cons h.record _

end PartialCatalog

/-! ## Catalogs -/

/-- Whether there is a first record, and none below it takes its place. -/
def FirstStays : List Record → Prop
  | [] => False
  | r :: rs => ∀ s ∈ rs, ¬(s.context = r.context ∧ s.msgid = r.msgid)

namespace Catalog

variable {base c d : Catalog} {r s : Record} {rs ss : List Record} {n : Notes}

/-- Whether the catalog `d` is `c` with the comments `n` on one of its records. -/
def GainsNotes (n : Notes) (c d : Catalog) : Prop :=
  ∃ r s, c.Stores r.context r.msgid r ∧ r.GainsNotes n s ∧ d = c.insert s

theorem sameHeader_of_gainFirst (h : GainFirst n rs ss) (c : Catalog) :
    (rs.foldl Catalog.addRecord c).SameHeader (ss.foldl Catalog.addRecord c) := by
  have hself : c.SameHeader c := ⟨rfl, rfl⟩
  cases h with
  | nil => exact hself
  | cons h rs =>
    obtain ⟨before, after, -, rfl⟩ := h
    exact (hself.addRecord _ _).foldl_addRecord rs

theorem GainsNotes.eq_iff (h : c.GainsNotes n d) (hc : ∀ name, c.context? name ≠ some ∅) :
    d = c ↔ n = .empty := by
  obtain ⟨r, s, hstores, hgains, rfl⟩ := h
  have hrecord := record?_insert c s r.context r.msgid
  rw [if_pos hgains.place_eq] at hrecord
  obtain ⟨before, after, hnotes, hs⟩ := hgains
  rw [← Notes.append_append_eq_iff before n after, ← hnotes]
  constructor
  · intro hinsert
    rw [hinsert] at hrecord
    obtain rfl : r = s := Option.some.inj (hstores.symm.trans hrecord)
    exact (congrArg Record.comments hs).symm
  · intro hsame
    obtain rfl : s = r := by rw [hs, hsame]
    exact insert_eq_self hc hstores

/-- Comments that the first record has gained are in the catalog when it stays there. -/
theorem MadeOf.gainsNotes (hc : base.MadeOf rs c) (hd : base.MadeOf ss d)
    (hheader : c.SameHeader d) (h : GainFirst n rs ss) (hstays : FirstStays rs) :
    c.GainsNotes n d := by
  obtain _ | @⟨r, s, hgains, rs⟩ := h
  · exact hstays.elim
  have hlast : lastRecord? rs r.context r.msgid = none := lastRecord?_eq_none_iff.2 hstays
  have hstores : c.Stores r.context r.msgid r := by
    have hrecord := hc.record? r.context r.msgid
    rwa [lastRecord?_cons, hlast, if_pos ⟨rfl, rfl⟩] at hrecord
  refine ⟨r, s, hstores, hgains, ?_⟩
  have hheader' : d.SameHeader (c.insert s) := ⟨hheader.charset.symm, hheader.headers.symm⟩
  apply eq_of_record? hheader' hd.contexts (context?_insert_ne hc.contexts s)
  intro context msgid
  rw [hd.record?, record?_insert, hc.record?, lastRecord?_cons, lastRecord?_cons,
    hgains.place_eq.1, hgains.place_eq.2]
  split
  · next hr =>
    rw [← hr.1, ← hr.2, hlast]
    rfl
  · rfl

/-- A record that is replaced leaves nothing behind of the comments it has gained. -/
theorem MadeOf.eq_of_gainFirst (hc : base.MadeOf rs c) (hd : base.MadeOf ss d)
    (hheader : c.SameHeader d) (h : GainFirst n rs ss) (hstays : ¬ FirstStays rs) : d = c := by
  have hheader' : d.SameHeader c := ⟨hheader.charset.symm, hheader.headers.symm⟩
  apply eq_of_record? hheader' hd.contexts hc.contexts
  intro context msgid
  rw [hd.record?, hc.record?]
  obtain _ | @⟨r, s, hgains, rs⟩ := h
  · rfl
  rw [lastRecord?_cons, lastRecord?_cons, hgains.place_eq.1, hgains.place_eq.2]
  split
  · next hr =>
    have hlast : lastRecord? rs context msgid ≠ none := by
      rw [← hr.1, ← hr.2]
      exact mt lastRecord?_eq_none_iff.1 hstays
    obtain ⟨t, ht⟩ := Option.ne_none_iff_exists'.1 hlast
    rw [ht]
    rfl
  · rfl

end Catalog

namespace PartialCatalog

variable {p q r : PartialCatalog} {ls : List CatalogLine} {n : Notes}

/-- Comments that are gained are seen in the catalog when there are any and the first record that is
closed stays there. -/
theorem GainsNotes.finish (h : p.GainsNotes n q)
    (hp : ∀ name, p.catalog.context? name ≠ some ∅) (hruns : Runs q ls r) :
    ∃ r', Runs p ls r' ∧ (FirstStays (p.closed ls) → r'.finish.GainsNotes n r.finish) ∧
      (r.finish = r'.finish ↔ n = .empty ∨ ¬ FirstStays (p.closed ls)) := by
  obtain ⟨r', hruns', hclosed⟩ := h.runs hruns
  have hmade' := madeOf_finish hp hruns'
  have hmade := madeOf_finish (h.catalog ▸ hp) hruns
  rw [h.catalog] at hmade
  have hheader : r'.finish.SameHeader r.finish := by
    apply sameHeader_finish
    rw [catalog_of_runs hruns, catalog_of_runs hruns', h.catalog]
    exact Catalog.sameHeader_of_gainFirst hclosed p.catalog
  refine ⟨r', hruns', hmade'.gainsNotes hmade hheader hclosed, ?_⟩
  by_cases hstays : FirstStays (p.closed ls)
  · have hgains := hmade'.gainsNotes hmade hheader hclosed hstays
    rw [hgains.eq_iff hmade'.contexts, or_iff_left (not_not_intro hstays)]
  · have heq := hmade'.eq_of_gainFirst hmade hheader hclosed hstays
    exact iff_of_true heq (.inr hstays)

end PartialCatalog

/-! ## Blocks -/

namespace PartialCatalog

variable {p q : PartialCatalog} {ls : List CatalogLine}

theorem IsSound.of_runs (h : Runs p ls q) (hp : p.IsSound) : q.IsSound := by
  induction ls generalizing p with
  | nil =>
    obtain rfl : p = q := Except.ok.inj h
    exact hp
  | cons line ls ih =>
    rw [Runs, List.foldlM_cons] at h
    obtain ⟨p', hstep, h⟩ := bind_eq_ok_iff.1 h
    exact ih h (hp.step hstep)

/-- Below a blank line, and at the beginning, no record has its text or a translation yet. -/
theorem hasMsgstr_of_runs (h : Runs start ls q) (hls : ∀ line ∈ ls.getLast?, line = .blank) :
    q.draft.hasMsgstr = false := by
  have hmsgid : q.draft.hasMsgid = false := by
    rcases List.eq_nil_or_concat ls with rfl | ⟨above, line, rfl⟩
    · obtain rfl : start = q := Except.ok.inj h
      rfl
    · obtain rfl : line = .blank := hls line (by simp)
      rw [List.concat_eq_append] at h
      obtain ⟨p, -, hstep⟩ := runs_append_iff.1 h
      obtain rfl : p.flushIf p.draft.hasMsgid = q := Except.ok.inj hstep
      unfold flushIf
      split
      · rfl
      · next hmsgid => exact Bool.eq_false_iff.2 hmsgid
  have hsound : q.IsSound := (isSound_blank _).of_runs h
  apply Bool.eq_false_iff.2
  intro hmsgstr
  exact Bool.eq_false_iff.1 hmsgid (hsound.hasMsgid hmsgstr)

end PartialCatalog

namespace CatalogLine

variable {s : List Char} {line : CatalogLine}

/-- The comment on a line, if there is one. -/
def note? : CatalogLine → Option (NoteKind × String)
  | .comment kind text => some (kind, text)
  | _ => none

/-- A line that is marked with `#` is a comment or of an entry no longer in use. -/
theorem eq_obsolete_or_comment (h : ofText s = .ok line) (hs : (trim s).head? = some '#') :
    line = .obsolete ∨ ∃ kind text, line = .comment kind text := by
  obtain ⟨t, ht⟩ := List.head?_eq_some_iff.1 hs
  unfold ofText at h
  rw [ht] at h
  split at h
  · contradiction
  · cases h
    exact .inl rfl
  · cases h
    right
    unfold ofComment
    split <;> exact ⟨_, _, rfl⟩
  · next hquote => exact absurd (List.cons.inj hquote).1 (by decide)
  · next hcomment _ => exact (hcomment t rfl).elim

theorem filter_obsolete {ls : List CatalogLine}
    (h : ∀ line ∈ ls, line = .obsolete ∨ ∃ kind text, line = .comment kind text) :
    ls.filter (· ≠ .obsolete) = (ls.filterMap note?).map fun note => .comment note.1 note.2 := by
  induction ls with
  | nil => rfl
  | cons line ls ih =>
    have hbelow := ih fun line hline => h line (.tail _ hline)
    rcases h line (.head _) with rfl | ⟨kind, text, rfl⟩
    · exact hbelow
    · exact congrArg (.comment kind text :: ·) hbelow

end CatalogLine

/-- The comments of a block of lines. -/
def blockNotes (block : String) : Notes :=
  .ofLines ((lines block.toList).filterMap fun s => (CatalogLine.ofText s).toOption.bind (·.note?))

/-- Whether a block of a text between blank lines, or at the ends of the text, has only lines marked
with `#` and with one of these an entry that is no longer in use. -/
structure IsObsoleteBlock (above block below : String) : Prop where
  above_ends : AtLineStart above.toList
  above_blank : ∀ s ∈ (lines above.toList).getLast?, trim s = []
  block_ends : AtLineStart block.toList ∨ below = ""
  below_blank : ∀ s ∈ (lines below.toList).head?, trim s = []
  marked : ∀ s ∈ lines block.toList, (trim s).head? = some '#'
  obsolete : ∃ s ∈ lines block.toList, ['#', '~'] <+: trim s

/-- Whether comments that stand between the two parts of a text go to a record of it: the first one
that is closed in the lower part, unless a later one takes its place. -/
def TakesNotes (above below : String) : Prop :=
  ∃ p ls, PartialCatalog.start.readLines 1 (lines above.toList) = .ok p ∧
    (lines below.toList).map CatalogLine.ofText = ls.map .ok ∧ FirstStays (p.closed ls)

/-! ## Texts -/

theorem atLineStart_of_getLast? {s : List Char} (h : s.getLast? = some '\n') : AtLineStart s := by
  intro c hc
  rw [h] at hc
  exact (Option.some.inj hc).symm

namespace Text

variable {s : List Char}

theorem lines_ne_nil (h : s ≠ []) : lines s ≠ [] := by
  fun_cases lines s with
  | case1 => contradiction
  | case2 => exact List.cons_ne_nil _ _
  | case3 => exact List.cons_ne_nil _ _
  | case4 => exact List.cons_ne_nil _ _

/-- The lines of a text that ends with a line end stand before those of the text below. -/
theorem lines_append (h : AtLineStart s) (t : List Char) : lines (s ++ t) = lines s ++ lines t := by
  induction s with
  | nil => rfl
  | cons c s ih =>
    have hs : AtLineStart s := by
      intro d hd
      refine h d ?_
      rw [List.getLast?_cons, hd]
      rfl
    by_cases hc : c = '\n'
    · rw [List.cons_append, lines, if_pos hc, lines, if_pos hc, ih hs, List.cons_append]
    · -- the line that begins with `c` goes on, as the text ends with a line end
      have hne : s ≠ [] := by
        rintro rfl
        exact hc (h c rfl)
      obtain ⟨l, ls, hlines⟩ := List.exists_cons_of_ne_nil (lines_ne_nil hne)
      rw [List.cons_append, lines, if_neg hc, lines, if_neg hc, ih hs, hlines]
      rfl

end Text

section

variable {above block below : String} {p : PartialCatalog} {ls : List CatalogLine} {c : Catalog}

theorem takesNotes_iff (hp : PartialCatalog.start.readLines 1 (lines above.toList) = .ok p)
    (hls : (lines below.toList).map CatalogLine.ofText = ls.map .ok) :
    TakesNotes above below ↔ FirstStays (p.closed ls) := by
  constructor
  · rintro ⟨p', ls', hp', hls', hstays⟩
    obtain rfl : p = p' := Except.ok.inj (hp.symm.trans hp')
    obtain rfl : ls = ls' :=
      (List.map_inj_right fun _ _ => Except.ok.inj).1 (hls.symm.trans hls')
    exact hstays
  · intro hstays
    exact ⟨p, ls, hp, hls, hstays⟩

/-- The lines of a text with a block stand above it, in it and below it. -/
theorem IsObsoleteBlock.lines_eq (h : IsObsoleteBlock above block below) :
    lines (above ++ block ++ below).toList =
      lines above.toList ++ (lines block.toList ++ lines below.toList) := by
  have hblock : lines (block.toList ++ below.toList) =
      lines block.toList ++ lines below.toList := by
    rcases h.block_ends with hends | rfl
    · exact Text.lines_append hends _
    · simp [lines]
  rw [String.append_assoc, String.toList_append, String.toList_append,
    Text.lines_append h.above_ends, hblock]

theorem blockNotes_eq (h : (lines block.toList).map CatalogLine.ofText = ls.map .ok) :
    blockNotes block = .ofLines (ls.filterMap (·.note?)) := by
  have hnotes := congrArg (List.filterMap fun e => e.toOption.bind CatalogLine.note?) h
  rw [List.filterMap_map, List.filterMap_map] at hnotes
  exact congrArg Notes.ofLines hnotes

/-- A block of comments and of entries no longer in use leaves its comments on the record that is
being read. -/
theorem IsObsoleteBlock.runs (h : IsObsoleteBlock above block below) {als bls : List CatalogLine}
    (hals : (lines above.toList).map CatalogLine.ofText = als.map .ok)
    (hbls : (lines block.toList).map CatalogLine.ofText = bls.map .ok)
    (hruns : PartialCatalog.Runs .start als p) :
    ∃ q, PartialCatalog.Runs p bls q ∧ p.GainsNotes (blockNotes block) q := by
  -- above the block a record is closed, so the comments in it wait for the next one
  have hblank : ∀ line ∈ als.getLast?, line = .blank := by
    intro line hline
    have hlast := congrArg List.getLast? hals
    rw [List.getLast?_map, List.getLast?_map, hline] at hlast
    obtain ⟨s, hs, htext⟩ := Option.map_eq_some_iff.1 hlast
    exact (CatalogLine.trim_eq_nil_iff htext).1 (h.above_blank s hs)
  -- nothing in the block is read but comments
  have hmarked : ∀ line ∈ bls, line = .obsolete ∨ ∃ kind text, line = .comment kind text := by
    intro line hline
    have hmem : .ok line ∈ (lines block.toList).map CatalogLine.ofText := by
      rw [hbls]
      exact List.mem_map_of_mem hline
    obtain ⟨s, hs, htext⟩ := List.mem_map.1 hmem
    exact CatalogLine.eq_obsolete_or_comment htext (h.marked s hs)
  have hmsgstr := PartialCatalog.hasMsgstr_of_runs hruns hblank
  refine ⟨_, .of_filter (CatalogLine.filter_obsolete hmarked ▸ p.runs_notes hmsgstr _),
    p.draft.record.comments, .empty, (Notes.append_empty _).symm, ?_⟩
  rw [Notes.append_empty, blockNotes_eq hbls, Notes.foldl_add]

/-- A text without a block of entries no longer in use is read as the same catalog, but for the
comments of the block. A record has them exactly when the block has any and the record takes them
and stays. -/
theorem parse_withoutObsoleteBlock (h : IsObsoleteBlock above block below)
    (hparse : Catalog.parse (above ++ block ++ below) = .ok c) :
    ∃ d, Catalog.parse (above ++ below) = .ok d ∧
      (TakesNotes above below → d.GainsNotes (blockNotes block) c) ∧
      (c = d ↔ blockNotes block = .empty ∨ ¬ TakesNotes above below) := by
  obtain ⟨r, hread, rfl⟩ := map_eq_ok_iff.1 hparse
  rw [h.lines_eq] at hread
  obtain ⟨all, hall, hruns⟩ := PartialCatalog.exists_runs_of_readLines hread
  rw [List.map_append, List.map_append] at hall
  obtain ⟨als, rest, rfl, hals, hrest⟩ := List.map_eq_append_iff.1 hall.symm
  obtain ⟨bls, ls, rfl, hbls, hls⟩ := List.map_eq_append_iff.1 hrest
  -- the states above the block and below it
  obtain ⟨p, habove, hruns⟩ := PartialCatalog.runs_append_iff.1 hruns
  obtain ⟨q, hblock, hgains⟩ := h.runs hals.symm hbls.symm habove
  obtain ⟨q', hblock', hbelow⟩ := PartialCatalog.runs_append_iff.1 hruns
  obtain rfl : q = q' := Except.ok.inj (hblock.symm.trans hblock')
  have hcontexts : ∀ name, p.catalog.context? name ≠ some ∅ :=
    PartialCatalog.contexts_of_runs Catalog.IsFiled.empty.contexts habove
  obtain ⟨r', hbelow', htakes, heq⟩ := hgains.finish hcontexts hbelow
  have hlines : (lines (above ++ below).toList).map CatalogLine.ofText = (als ++ ls).map .ok := by
    rw [String.toList_append, Text.lines_append h.above_ends, List.map_append, List.map_append,
      hals, hls]
  rw [takesNotes_iff (habove.readLines hals.symm 1) hls.symm]
  refine ⟨r'.finish, ?_, htakes, heq⟩
  rw [Catalog.parse, (habove.append hbelow').readLines hlines 1]
  rfl

end

/-- A translated word and a blank line. -/
def catText : String := "msgid \"cat\"\nmsgstr \"chat\"\n\n"

/-- An entry no longer in use, with a comment and a flag. -/
def oldText : String := "# old\n#, fuzzy\n#~ msgid \"owl\"\n#~ msgstr \"hibou\"\n"

/-- A blank line and a translated word. -/
def dogText : String := "\nmsgid \"dog\"\nmsgstr \"chien\"\n"

theorem isObsoleteBlock_old (above : String) (hends : AtLineStart above.toList)
    (hblank : ∀ s ∈ (lines above.toList).getLast?, trim s = []) :
    IsObsoleteBlock above oldText dogText where
  above_ends := hends
  above_blank := hblank
  block_ends := .inl (atLineStart_of_getLast? (by decide +kernel))
  below_blank := by decide +kernel
  marked := by decide +kernel
  obsolete := by decide +kernel

/-- The catalog of the two words, with the comments of the old entry on the second one. -/
def flaggedCatalog : Catalog :=
  { (Catalog.empty.insert (.simple "cat" "chat")).insert
      ⟨none, "dog", none, ["chien"], ⟨["old"], [], [], ["fuzzy"], []⟩⟩ with charset := "utf-8" }

theorem takesNotes_dog : TakesNotes catText dogText := by
  have hdraft : (PartialCatalog.start.readLines 1 (lines catText.toList)).map (·.draft) =
      .ok .blank := by
    decide +kernel
  obtain ⟨⟨c, draft⟩, hread, rfl⟩ := map_eq_ok_iff.1 hdraft
  have hlines : (lines dogText.toList).map CatalogLine.ofText = List.map .ok
      [.blank, .field .msgid "dog", .field (.msgstr 0) "chien"] := by
    decide +kernel
  refine ⟨_, _, hread, hlines, ?_⟩
  show FirstStays [.simple "dog" "chien"]
  simp [FirstStays]

theorem parse_withoutObsoleteBlock_old :
    IsObsoleteBlock catText oldText dogText ∧
      Catalog.parse (catText ++ oldText ++ dogText) = .ok flaggedCatalog ∧
      ∃ d, Catalog.parse (catText ++ dogText) = .ok d ∧
        d.GainsNotes ⟨["old"], [], [], ["fuzzy"], []⟩ flaggedCatalog ∧ flaggedCatalog ≠ d := by
  have hblock : IsObsoleteBlock catText oldText dogText :=
    isObsoleteBlock_old catText (atLineStart_of_getLast? (by decide +kernel)) (by decide +kernel)
  have hparse : Catalog.parse (catText ++ oldText ++ dogText) = .ok flaggedCatalog := by
    decide +kernel
  obtain ⟨d, hd, htakes, heq⟩ := parse_withoutObsoleteBlock hblock hparse
  have hnotes : blockNotes oldText = ⟨["old"], [], [], ["fuzzy"], []⟩ := by decide +kernel
  rw [hnotes] at htakes heq
  refine ⟨hblock, hparse, d, hd, htakes takesNotes_dog, fun hsame => ?_⟩
  obtain hnone | hleft := heq.1 hsame
  · exact absurd hnone (by decide)
  · exact hleft takesNotes_dog

/-- Whether the catalog of a text stays the same when a block of it is left out. -/
def SkipsBlock (above block below : String) : Prop :=
  ∀ c, Catalog.parse (above ++ block ++ below) = .ok c → Catalog.parse (above ++ below) = .ok c

/-- The comment and the flag of an entry no longer in use are read as those of the word below. -/
theorem not_skipsBlock : IsObsoleteBlock "" oldText dogText ∧ ¬ SkipsBlock "" oldText dogText := by
  refine ⟨isObsoleteBlock_old "" atLineStart_nil (by decide), fun hskips => ?_⟩
  have hflagged : Catalog.parse ("" ++ oldText ++ dogText) = .ok
      { Catalog.empty.insert ⟨none, "dog", none, ["chien"], ⟨["old"], [], [], ["fuzzy"], []⟩⟩
        with charset := "utf-8" } := by
    decide +kernel
  have hdropped : Catalog.parse ("" ++ dogText) = .ok
      { Catalog.empty.insert (.simple "dog" "chien") with charset := "utf-8" } := by
    decide +kernel
  exact absurd (hdropped.symm.trans (hskips _ hflagged)) (by decide +kernel)

end FluentMerge
