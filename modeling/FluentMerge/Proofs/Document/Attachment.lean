import FluentMerge.Proofs.Document.CommentBlocks

/-!
# Comments and what they are about

A message or a term is given the lines with one mark that stand directly above its name, all of
them, and it has no comment where there is none (`parse_hasExactComment`). The reader gives an entry
the comment that it read just before, which is that block of lines (`Precedes`); the run over a text
carries what was read last.
-/

namespace FluentMerge

open Read
open Text (byteLength)

/-! ## Where names stand -/

/-- Whether the name of the entry stands in a text at the end of `above`: on a line of the entry,
and no other such line of the entry is above it. -/
structure Entry.IsNamedAt (e : Entry) (name text above below : List Char) : Prop where
  cut : text = above ++ below
  lineStart : AtLineStart above
  named : BeginsWithName name below
  within : ∃ sp ∈ e.span, sp.start ≤ byteLength above ∧ byteLength above < sp.stop
  first : ∀ above' below', text = above' ++ below' → AtLineStart above' →
    BeginsWithName name below' → ∀ sp ∈ e.span, sp.start ≤ byteLength above' →
    byteLength above ≤ byteLength above'

/-- The name of an entry stands at one place. -/
theorem Entry.IsNamedAt.unique {e : Entry} {name text above below above' below' : List Char}
    (h : e.IsNamedAt name text above below) (h' : e.IsNamedAt name text above' below') :
    above = above' := by
  obtain ⟨sp, hsp, hstart, -⟩ := h.within
  obtain ⟨sp', hsp', hstart', -⟩ := h'.within
  refine (append_inj_of_byteLength (h.cut.symm.trans h'.cut) ?_).1
  apply Nat.le_antisymm
  · exact h.first above' below' h'.cut h'.lineStart h'.named sp' hsp' hstart'
  · exact h'.first above below h.cut h.lineStart h.named sp hsp hstart

/-! ## Exact comments -/

/-- A message or a term of a text, whose name is `name`, has a comment exactly when a remark stands
directly above the name, and then all of the remarks there. -/
structure Entry.HasExactComment (e : Entry) (name text : List Char) : Prop where
  named : ∃ above below, e.IsNamedAt name text above below
  isSome_iff : ∀ above below, e.IsNamedAt name text above below →
    (e.comment?.isSome ↔ EndsWithRemark above)
  /-- The comment is that of the block above the name, and the entry begins with it. -/
  block : ∀ above below, e.IsNamedAt name text above below → ∀ c ∈ e.comment?,
    ∃ before, c.IsOfBlock above before ∧ e.span.map Span.start = some (byteLength before)
  /-- Without a comment the entry begins with its name. -/
  alone : ∀ above below, e.IsNamedAt name text above below → e.comment? = none →
    e.span.map Span.start = some (byteLength above)

/-- An entry that begins with remarks, or with none, is named behind them. -/
theorem isNamedAt_of_remarks {above before body after name : List Char} {e : Entry}
    (remarks : List (List Char)) (hbefore : before = above ++ wholeLines remarks)
    (hremarks : ∀ line ∈ remarks, IsRemark line) (hline : AtLineStart before) (hne : body ≠ [])
    (hname : BeginsWithName name (body ++ after)) (hhead : ∃ d t, name = d :: t ∧ d ≠ '#')
    (hspan : e.span = some ⟨byteLength above, byteLength before + byteLength body⟩) :
    e.IsNamedAt name (before ++ (body ++ after)) before (body ++ after) := by
  have hlength := byteLength_pos hne
  refine ⟨rfl, hline, hname, ⟨_, hspan, ?_, ?_⟩, ?_⟩
  · show byteLength above ≤ byteLength before
    rw [hbefore, Text.byteLength_append]
    omega
  · show byteLength before < byteLength before + byteLength body
    omega
  · intro above' below' hcut hline' hname' sp hsp hstart
    rw [hspan, Option.mem_some_iff] at hsp
    subst hsp
    by_contra hlt
    -- the name would begin one of the remarks
    obtain ⟨t, ht, rfl⟩ := exists_append_of_byteLength_le hcut.symm (Nat.le_of_not_le hlt)
    rw [hbefore] at ht
    obtain ⟨u, rfl, hu⟩ := exists_append_of_byteLength_le ht hstart
    have hne' : t ≠ [] := by
      rintro rfl
      rw [hbefore, hu] at hlt
      simp at hlt
    have hmark := head_of_wholeLines Nat.one_pos hremarks hu hline'.of_append hne'
    obtain ⟨v, rfl⟩ := List.head?_eq_some_iff.1 hmark
    obtain ⟨d, w, rfl, hd⟩ := hhead
    obtain ⟨n, x, hx⟩ := hname'
    rw [List.cons_append, List.cons_append] at hx
    exact hd (List.cons.inj hx).1.symm

namespace Entry.IsNamedAt

variable {e : Entry} {name text above below : List Char}

/-- Without a comment, and without a remark above its name, an entry has exactly what is there. -/
theorem hasExactComment_of_none (h : e.IsNamedAt name text above below)
    (hcomment : e.comment? = none) (hremark : ¬ EndsWithRemark above)
    (hspan : e.span.map Span.start = some (byteLength above)) : e.HasExactComment name text := by
  refine ⟨⟨above, below, h⟩, ?_, ?_, ?_⟩
  · intro above' below' h'
    rw [← h.unique h', hcomment]
    simpa using hremark
  · intro above' below' _ c hc
    rw [hcomment] at hc
    cases hc
  · intro above' below' h' _
    rwa [← h.unique h']

/-- With the comment of the remarks above its name an entry has exactly what is there. -/
theorem hasExactComment_of_block (h : e.IsNamedAt name text above below) {c : Comment}
    {before : List Char} (hcomment : e.comment? = some c) (hc : c.IsOfBlock above before)
    (hspan : e.span.map Span.start = some (byteLength before)) : e.HasExactComment name text := by
  refine ⟨⟨above, below, h⟩, ?_, ?_, ?_⟩
  · intro above' below' h'
    obtain ⟨remarks, hblock, -⟩ := hc
    have hremarks : ∀ line ∈ remarks, IsMarked 1 line := fun l hl =>
      isMarked_one.2 (hblock.remark l hl)
    rw [← h.unique h', hcomment, hblock.text,
      endsWithRemark_wholeLines hblock.lineStart hblock.ne_nil hremarks]
    simp
  · intro above' below' h' c' hc'
    rw [hcomment, Option.mem_some_iff] at hc'
    rw [← h.unique h', ← hc']
    exact ⟨before, hc, hspan⟩
  · intro above' below' _ hnone
    rw [hcomment] at hnone
    cases hnone

end Entry.IsNamedAt

/-! ## The run over a text -/

/-- The comment about an entry that was read last, if that is what was read last. -/
def pending : Option Entry → List Entry
  | some (.comment .entry c) => [.comment .entry c]
  | _ => []

/-- What is known of an entry with a name that is cut off. -/
theorem CutsNext.of_name? {start : Nat} {body after rest name : List Char} {e : Entry}
    (h : CutsNext start body after e rest) (hname : e.name? = some name) :
    BeginsWithName name (body ++ after) ∧ (∃ d t, name = d :: t ∧ d ≠ '#') ∧ e.comment? = none := by
  cases h with
  | junk => cases hname
  | @entry e h _ =>
    rw [Entry.name?_withSpan] at hname
    obtain ⟨c, t, hcut, hc⟩ := exists_cons_of_name? h hname
    rw [hcut] at h ⊢
    obtain ⟨d, u, hname', hd, hbegins⟩ := name_of_entry hc h
    obtain rfl : name = d :: u := Option.some.inj (hname.symm.trans hname')
    exact ⟨hbegins, ⟨d, u, rfl, hd⟩, by rw [Entry.comment?_withSpan, entry_comment? h]⟩

section Cut

variable {before body after rest name : List Char} {e : Entry}

/-- An entry that is given no comment has none above its name. -/
theorem hasExactComment_of_cut {prev : Option Entry} (hline : AtLineStart before) (hne : body ≠ [])
    (hnext : CutsNext (byteLength before) body after e rest)
    (hprev : Precedes before (body ++ after) prev)
    (halone : ∀ c, prev = some (.comment .entry c) → c.attachTo? e = none)
    (hname : e.name? = some name) : e.HasExactComment name (before ++ (body ++ after)) := by
  obtain ⟨hbegins, hhead, hcomment⟩ := hnext.of_name? hname
  have hnamed := isNamedAt_of_remarks [] (List.append_nil before).symm (by simp) hline hne
    hbegins hhead hnext.span_eq
  apply hnamed.hasExactComment_of_none hcomment
  · cases hprev with
    | other hremark => exact hremark
    | @comment c _ hc =>
      -- the comment above would have been given
      obtain ⟨-, habove⟩ | ⟨e', hattach, -⟩ := Comment.attachTo?_of_name? (c := c) hname
      · rw [hnext.span_eq, hc.isDirectlyAbove] at habove
        cases habove
      · rw [halone c rfl] at hattach
        cases hattach
  · rw [hnext.span_eq]
    rfl

/-- An entry that is given the comment read in front of it has that above its name. -/
theorem hasExactComment_of_attachTo? {c : Comment} {e' : Entry} (hline : AtLineStart before)
    (hne : body ≠ []) (hnext : CutsNext (byteLength before) body after e rest)
    (hprev : Precedes before (body ++ after) (some (.comment .entry c)))
    (hattach : c.attachTo? e = some e') (hname : e'.name? = some name) :
    e'.HasExactComment name (before ++ (body ++ after)) := by
  rw [Comment.attachTo?_name? hattach] at hname
  obtain ⟨hbegins, hhead, -⟩ := hnext.of_name? hname
  obtain ⟨-, -, hspan⟩ := Comment.attachTo?_kind hattach
  obtain ⟨hnone, -⟩ | ⟨_, hattach', habove, hcomment⟩ := Comment.attachTo?_of_name? (c := c) hname
  · rw [hnone] at hattach
    cases hattach
  obtain rfl := Option.some.inj (hattach.symm.trans hattach')
  rw [hnext.span_eq] at habove hspan
  cases hprev with
  | other _ hspan' =>
    -- a comment directly above is the one of the remarks there
    unfold Comment.isDirectlyAbove at habove
    split at habove
    · next sp _ hsp hbelow =>
      cases hbelow
      exact absurd (beq_iff_eq.1 habove) (hspan' c rfl sp hsp)
    · cases habove
  | @comment _ block hc =>
    obtain ⟨remarks, hblock, -, hplace⟩ := id hc
    simp only [Comment.spanWith, hplace] at hspan
    have hnamed := isNamedAt_of_remarks remarks hblock.text hblock.remark hline hne hbegins hhead
      hspan
    apply hnamed.hasExactComment_of_block hcomment hc
    rw [hspan]
    rfl

end Cut

theorem pending_of_ne {e : Entry} (h : ∀ c, e ≠ .comment .entry c) : pending (some e) = [] := by
  unfold pending
  split
  · next c he => exact absurd (Option.some.inj he) (h c)
  · rfl

/-- What holds of an entry with the comment in front of it and of an entry without one holds of all
entries behind `prev`, if it holds of those behind the first. -/
theorem forall_mem_attachComments_pending {P : Entry → Prop} {prev : Option Entry} {e : Entry}
    {es : List Entry} (hcomment : ∀ c, P (.comment .entry c))
    (hattach : ∀ c e', prev = some (.comment .entry c) → c.attachTo? e = some e' → P e')
    (halone : (∀ c, prev = some (.comment .entry c) → c.attachTo? e = none) → P e)
    (h : ∀ x ∈ attachComments (pending (some e) ++ es), P x) :
    ∀ x ∈ attachComments (pending prev ++ e :: es), P x := by
  have hbelow (he : ∀ c, e ≠ .comment .entry c) : ∀ x ∈ attachComments es, P x := by
    rwa [pending_of_ne he] at h
  have hnot (hnone : ∀ c, prev = some (.comment .entry c) → c.attachTo? e = none) :
      ∀ x ∈ attachComments (e :: es), P x := by
    by_cases he : ∃ c, e = .comment .entry c
    · obtain ⟨c, rfl⟩ := he
      exact h
    · have he' : ∀ c, e ≠ .comment .entry c := fun c hc => he ⟨c, hc⟩
      rw [attachComments_of_ne he']
      exact List.forall_mem_cons.2 ⟨halone hnone, hbelow he'⟩
  by_cases hprev : ∃ c, prev = some (.comment .entry c)
  · obtain ⟨c, rfl⟩ := hprev
    show ∀ x ∈ attachComments (.comment .entry c :: e :: es), P x
    rw [attachComments]
    cases hc : c.attachTo? e with
    | some e' =>
      have he : ∀ c, e ≠ .comment .entry c := by
        rintro c' rfl
        cases hc
      exact List.forall_mem_cons.2 ⟨hattach c e' rfl hc, hbelow he⟩
    | none =>
      -- the comment stands for itself, and `e` takes its place as what was read last
      refine List.forall_mem_cons.2 ⟨hcomment c, hnot ?_⟩
      rintro _ ⟨⟩
      exact hc
  · have hnil : pending prev = [] := by
      cases prev with
      | none => rfl
      | some p => exact pending_of_ne fun c hc => hprev ⟨c, congrArg some hc⟩
    rw [hnil]
    exact hnot fun c hc => absurd ⟨c, hc⟩ hprev

/-- The entries of a text that is read behind `prev` have exactly the comments above their names. -/
theorem separateEntries_hasExactComment (before s : List Char)
    (hstart : s ≠ [] → AtLineStart before) :
    ∀ prev, Leads prev before s →
      ∀ e ∈ attachComments (pending prev ++ separateEntries (byteLength before) s),
        ∀ name, e.name? = some name → e.HasExactComment name (before ++ s) := by
  apply separateEntries_induction (motive := fun before es s => ∀ prev, Leads prev before s →
    ∀ e ∈ attachComments (pending prev ++ es), ∀ name, e.name? = some name →
      e.HasExactComment name (before ++ s)) _ _ _ before s hstart
  · intro before s _ prev _ e he name hname
    rw [List.append_nil] at he
    unfold pending at he
    split at he
    · -- a comment at the end of the text has no name
      obtain rfl : e = _ := by simpa [attachComments] using he
      cases hname
    · cases he
  · intro before gap es s hgap h prev hprev
    rw [← List.append_assoc]
    exact h prev (hprev.skip hgap)
  · intro before body after e rest es hline hne hhead hnext h prev hprev
    have habove := hprev.precedes hline hne hhead
    apply forall_mem_attachComments_pending
    · rintro c name ⟨⟩
    · rintro c e' rfl hattach name hname
      exact hasExactComment_of_attachTo? hline hne hnext habove hattach hname
    · intro halone name hname
      exact hasExactComment_of_cut hline hne hnext habove halone hname
    · rw [← List.append_assoc]
      exact h (some e) (leads_next hline hne hnext habove)

/-- Every message and every term of a document has a comment exactly when a remark stands directly
above its name, and then all of the remarks there. -/
theorem parse_hasExactComment {text : String} {e : Entry} {name : List Char}
    (he : e ∈ (Document.parse text).entries) (hname : e.name? = some name) :
    e.HasExactComment name text.toList := by
  have hleads : Leads none [] text.toList := by
    intro gap below _ hgap _ _ _
    refine .other ?_ (by simp)
    by_cases hnil : gap = []
    · rw [hnil]
      rintro ⟨above, line, h, -⟩
      simp at h
    · exact not_endsWithRemark_of_isBlank atLineStart_nil hgap hnil
  exact separateEntries_hasExactComment [] text.toList (fun _ => atLineStart_nil) none hleads e he
    name hname

/-- Two remarks below junk are the comment of the term below them. -/
theorem parse_hasExactComment_brand :
    let brand : Entry := .term ⟨"brand", ⟨[.text "Sun"]⟩, [], some ⟨"One\nTwo", some ⟨2, 13⟩⟩,
      some ⟨2, 26⟩⟩
    let text := "b\n# One\n# Two\n-brand = Sun\n"
    brand ∈ (Document.parse text).entries ∧ brand.name? = some "-brand".toList ∧
      brand.HasExactComment "-brand".toList text.toList := by
  intro brand text
  have hbrand : brand ∈ (Document.parse text).entries := by decide +kernel
  exact ⟨hbrand, rfl, parse_hasExactComment hbrand rfl⟩

end FluentMerge
