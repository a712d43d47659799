import FluentMerge.Proofs.Document.Outline
import FluentMerge.Proofs.Merge.Reread
import Mathlib.Algebra.BigOperators.Group.List.Basic

/-!
# What a translation can break

A merge writes translations as they stand, so a translation can cut its message short, make junk of
it, or bring other messages along. It can do so only within the text of its own message: the outline
of a merged document is made up of the outlines of its messages' texts, each read on its own
(`outline_merge`). So a merged document holds exactly the messages that were kept when each text by
itself holds exactly its message, and it does so whenever each translation can be read as a value
(`merge_holdsMessages`).
-/

namespace FluentMerge

open Read
open Text (unifyLineEnds unifyLineEnds_append_lineEnd unifyLineEnds_cons)

theorem textOutline_nil : textOutline [] = [] := by
  rw [textOutline, separateEntries_of_nil (by rw [skipBlankLines_of_nil rfl])]
  rfl

theorem textOutline_lineEnd (s : List Char) : textOutline ('\n' :: s) = textOutline s := by
  apply textOutline_skipBlankLines
  rw [skipBlankLines_of_lineEnd (t := s) rfl]

/-- The outline of spread texts is made up of the outlines of the texts. -/
theorem Spread.textOutline {texts : List (List Char)} {s : List Char} (h : Spread texts s)
    (hopens : ∀ x ∈ texts, OpensText x) :
    textOutline (unifyLineEnds s) =
      texts.flatMap fun x => FluentMerge.textOutline (unifyLineEnds x) := by
  induction h with
  | nil => exact textOutline_nil
  | lineEnd _ ih => rw [unifyLineEnds_cons (by decide), textOutline_lineEnd, ih hopens]
  | @text x s texts hx h hs ih =>
    -- what is below a text begins a line, so the text is read as if it stood alone
    have hopens' : ∀ x ∈ texts, OpensText x := fun x hx => hopens x (List.mem_cons_of_mem _ hx)
    rw [List.flatMap_cons, ← ih hopens']
    cases s with
    | nil =>
      have hnil : unifyLineEnds [] = [] := rfl
      rw [List.append_nil, hnil, textOutline_nil, List.append_nil]
    | cons c s =>
      obtain rfl := hs c rfl
      obtain ⟨w, c, hc, hunified, hall⟩ := unifyLineEnds_append_lineEnd x s
      rw [hall, hunified, textOutline_append (h.isBelow hopens') hc, unifyLineEnds_cons (by decide)]

theorem outline_ofFileText {x : String} (h : Text.dropByteOrderMark x.toList = x.toList) :
    outline (Document.ofFileText x).entries = textOutline (unifyLineEnds x.toList) := by
  rw [Document.ofFileText, outline_parse, String.toList_ofList, h]

theorem OpensText.dropByteOrderMark_eq {x : List Char} (h : OpensText x) :
    Text.dropByteOrderMark x = x := by
  apply dropByteOrderMark_eq_self
  have hopen := (h []).1.head_ne_byteOrderMark
  rwa [List.append_nil] at hopen

section Merge

variable {t : Translations} {ftl out : String}

theorem opensText_keptMessages {m : Message}
    (hm : m ∈ keptMessages t (Document.ofFileText ftl).entries) :
    OpensText (m.translated t).toList := by
  obtain ⟨hmem, hkept⟩ := mem_keptMessages.1 hm
  exact opensText_translated (ofFileText_isLegible ftl _ hmem) hkept

/-- The outline of a merged document is made up of the outlines of its messages' texts. -/
theorem outline_merge (h : mergeEntries t (Document.ofFileText ftl).entries = .ok out) :
    outline (Document.ofFileText out).entries =
      (keptMessages t (Document.ofFileText ftl).entries).flatMap fun m =>
        outline (Document.ofFileText (m.translated t)).entries := by
  have hopens : ∀ x ∈ (keptMessages t (Document.ofFileText ftl).entries).map
      fun m => (m.translated t).toList, OpensText x := by
    intro x hx
    obtain ⟨m, hm, rfl⟩ := List.mem_map.1 hx
    exact opensText_keptMessages hm
  have hspread := merge_spread h
  rw [outline_ofFileText (hspread.dropByteOrderMark_eq hopens), hspread.textOutline hopens,
    List.flatMap_map, List.flatMap_def, List.flatMap_def]
  congr 1
  exact List.map_congr_left fun m hm =>
    (outline_ofFileText (opensText_keptMessages hm).dropByteOrderMark_eq).symm

end Merge

/-! ## Documents that hold messages -/

/-- The names of the messages, in order. -/
def messageIds (es : List Entry) : List String :=
  es.filterMap fun e => match e with
    | .message m => some m.id
    | _ => none

/-- Whether a document has no junk and its messages have these names, in this order. -/
def HoldsMessages (es : List Entry) (ids : List String) : Prop :=
  (∀ e ∈ es, e.kind ≠ .junk) ∧ messageIds es = ids

instance (es : List Entry) (ids : List String) : Decidable (HoldsMessages es ids) :=
  inferInstanceAs (Decidable (_ ∧ _))

theorem messageIds_cons (e : Entry) (es : List Entry) :
    messageIds (e :: es) = messageIds [e] ++ messageIds es := by
  rw [messageIds, ← List.singleton_append, List.filterMap_append]
  rfl

theorem holdsMessages_cons {e : Entry} {es : List Entry} {ids : List String}
    (he : e.kind ≠ .junk) :
    HoldsMessages (e :: es) ids ↔
      ∃ ids', ids = messageIds [e] ++ ids' ∧ HoldsMessages es ids' := by
  rw [HoldsMessages, List.forall_mem_cons, messageIds_cons]
  constructor
  · rintro ⟨⟨-, hes⟩, rfl⟩
    exact ⟨_, rfl, hes, rfl⟩
  · rintro ⟨_, rfl, hes, rfl⟩
    exact ⟨⟨he, hes⟩, rfl⟩

/-- The outline of a document tells whether it holds given messages. -/
theorem outline_eq_map_some_iff {es : List Entry} {ids : List String} :
    outline es = ids.map some ↔ HoldsMessages es ids := by
  induction es generalizing ids with
  | nil => cases ids <;> simp [HoldsMessages, messageIds]
  | cons e es ih =>
    rw [outline_cons]
    cases e with
    | message m =>
      rw [holdsMessages_cons (by simp [Entry.kind])]
      constructor
      · intro h
        cases ids with
        | nil => cases h
        | cons id ids =>
          obtain ⟨hid, hids⟩ := List.cons.inj h
          exact ⟨ids, by rw [← Option.some.inj hid]; rfl, ih.1 hids⟩
      · rintro ⟨ids, rfl, h⟩
        exact congrArg (some m.id :: ·) (ih.2 h)
    | junk j =>
      -- the mark of junk is the name of no message
      have hjunk : ¬HoldsMessages (.junk j :: es) ids := fun h => h.1 _ (.head _) rfl
      cases ids <;> simp [Entry.outline?, hjunk]
    | term _ =>
      rw [holdsMessages_cons (by simp [Entry.kind])]
      simp [Entry.outline?, messageIds, ih]
    | comment _ _ =>
      rw [holdsMessages_cons (by simp [Entry.kind])]
      simp [Entry.outline?, messageIds, ih]

@[simp] theorem Entry.outline?_unplaced (e : Entry) : e.unplaced.outline? = e.outline? := by
  cases e <;> rfl

theorem outline_map_unplaced (es : List Entry) : outline (es.map Entry.unplaced) = outline es := by
  rw [outline, outline, List.filterMap_map]
  congr 1
  exact funext Entry.outline?_unplaced

/-! ## What a message's text holds -/

/-- A line that begins with a letter is a message or junk. -/
theorem textOutline_ne_nil {c : Char} (hc : c.isAlpha = true) (s : List Char) :
    textOutline (c :: s) ≠ [] := by
  have hentry (start : Nat) : (nextEntry start (c :: s)).1.outline? ≠ none := by
    obtain ⟨body, after, hcut, -, hnext⟩ := nextEntry_cut start (List.cons_ne_nil c s)
    generalize nextEntry start (c :: s) = next at hnext ⊢
    obtain ⟨e, rest⟩ := next
    cases hnext with
    | junk hfault _ => exact Option.some_ne_none none
    | entry hread _ =>
      rw [← hcut] at hread
      cases entryRead_of_entry hread with
      | comment _ => exact absurd hc (by decide)
      | term _ => exact absurd hc (by decide)
      | @message _ _ _ m _ _ => exact Option.some_ne_none (some m.id)
  rw [textOutline, separateEntries_of_cons (skipBlankLines_of_isAlpha hc s) rfl, outline_cons]
  generalize 0 + Text.byteLength (consumed (c :: s) (c :: s)) = start
  cases hfirst : (nextEntry start (c :: s)).1.outline? with
  | none => exact absurd hfirst (hentry start)
  | some x => simp

/-- The text of a message that is kept is a message or junk, whatever is written in it. -/
theorem outline_translated_ne_nil {t : Translations} {m : Message} (hm : m.IsLegible)
    (h : m.translated t ≠ "") : outline (Document.ofFileText (m.translated t)).entries ≠ [] := by
  have hopen := opensText_translated hm h
  obtain ⟨d, u, hd, hu⟩ := translatedText_eq_cons (t := t) hm []
  rw [List.append_nil] at hu
  rw [outline_ofFileText hopen.dropByteOrderMark_eq]
  cases hcomment : m.comment with
  | none =>
    rw [toList_translated h, hcomment, Option.map_none, Option.getD_none, List.nil_append, hu]
    exact textOutline_ne_nil hd u
  | some c =>
    have hopens := congrArg Prod.snd (hopen []).1.skipBlankLines_eq
    rw [List.append_nil, toList_translated h, hcomment, Option.map_some, Option.getD_some] at hopens
    obtain ⟨span, hentries⟩ := separateEntries_comment (hm.comment c hcomment) hd hu hopens 0
    rw [toList_translated h, hcomment, Option.map_some, Option.getD_some, textOutline, hentries,
      outline_cons, outline_eq_textOutline]
    exact textOutline_ne_nil hd u

/-- Parts that are not empty make up single values exactly if each part is the value in its place.
-/
theorem flatMap_eq_map_iff {α β : Type} {f : α → List β} {g : α → β} {l : List α}
    (h : ∀ a ∈ l, f a ≠ []) : l.flatMap f = l.map g ↔ ∀ a ∈ l, f a = [g a] := by
  induction l with
  | nil => simp
  | cons a l ih =>
    have hl : ∀ a ∈ l, f a ≠ [] := fun a ha => h a (.tail _ ha)
    rw [List.flatMap_cons, List.map_cons, List.forall_mem_cons, ← ih hl]
    constructor
    · intro heq
      obtain ⟨b, bs, hb⟩ := List.exists_cons_of_ne_nil (h a (.head _))
      rw [hb, List.cons_append] at heq
      obtain ⟨rfl, htail⟩ := List.cons.inj heq
      -- each part counts for one at least, so nothing is left over in the first
      have hlength : l.length ≤ (l.flatMap f).length := by
        rw [List.length_flatMap, ← @List.length_map _ _ l fun a => (f a).length]
        apply List.length_le_sum_of_one_le
        intro n hn
        obtain ⟨a, ha, rfl⟩ := List.mem_map.1 hn
        exact List.length_pos_of_ne_nil (hl a ha)
      have hbs : bs = [] := by
        have := congrArg List.length htail
        rw [List.length_append, List.length_map] at this
        exact List.eq_nil_of_length_eq_zero (by omega)
      rw [hbs, List.nil_append] at htail
      exact ⟨by rw [hb, hbs], htail⟩
    · rintro ⟨ha, hl⟩
      rw [ha, hl]
      rfl

section Merge

variable {t : Translations} {ftl out : String}

/-- Reading the merged document finds the messages that were kept exactly if reading the text of
each one finds that message. -/
theorem holdsMessages_merge_iff (h : mergeEntries t (Document.ofFileText ftl).entries = .ok out) :
    HoldsMessages (Document.ofFileText out).entries
        ((keptMessages t (Document.ofFileText ftl).entries).map (·.id)) ↔
      ∀ m ∈ keptMessages t (Document.ofFileText ftl).entries,
        HoldsMessages (Document.ofFileText (m.translated t)).entries [m.id] := by
  rw [← outline_eq_map_some_iff, outline_merge h, List.map_map, flatMap_eq_map_iff]
  · exact forall₂_congr fun m _ => @outline_eq_map_some_iff _ [m.id]
  · intro m hm
    obtain ⟨hmem, hkept⟩ := mem_keptMessages.1 hm
    exact outline_translated_ne_nil (ofFileText_isLegible ftl _ hmem) hkept

/-- Translations that can be read as values leave each message in its place. -/
theorem holdsMessages_merge (h : mergeEntries t (Document.ofFileText ftl).entries = .ok out)
    (hreads : ∀ m ∈ keptMessages t (Document.ofFileText ftl).entries,
      ∃ pattern, m.ReadsAs t pattern) :
    HoldsMessages (Document.ofFileText out).entries
      ((keptMessages t (Document.ofFileText ftl).entries).map (·.id)) := by
  -- what a translation is read as does not depend on the message it stands in
  have hpattern (translation : String) :
      ∃ p, (∃ q, ReadsAs translation q) → ReadsAs translation p := by
    by_cases hread : ∃ q, ReadsAs translation q
    · exact hread.imp fun p hp _ => hp
    · exact ⟨⟨[]⟩, fun hp => absurd hp hread⟩
  choose pattern hpattern using hpattern
  have hall : ∀ m ∈ keptMessages t (Document.ofFileText ftl).entries, m.ReadsAs t pattern := by
    intro m hm
    obtain ⟨q, hq⟩ := hreads m hm
    exact ⟨fun hne => hpattern _ ⟨_, hq.value hne⟩, fun a ha => hpattern _ ⟨_, hq.attributes a ha⟩⟩
  have hreread := congrArg outline (merge_reread h hall)
  rw [outline_map_unplaced] at hreread
  rw [← outline_eq_map_some_iff, hreread, outline, List.filterMap_map, List.map_map]
  show List.filterMap (fun m : Message => some (some m.id)) _ = _
  rw [List.filterMap_eq_map']
  rfl

end Merge

section Catalog

variable {c : Catalog} {ftl out : String}

/-- A merged document holds the messages that were kept exactly if the text of each one, read on its
own, holds that message. It does if each translation can be read as a value. -/
theorem merge_holdsMessages (h : (Document.ofFileText ftl).merge c = .ok out) :
    outline (Document.ofFileText out).entries =
      (keptMessages c.defaultTranslations (Document.ofFileText ftl).entries).flatMap (fun m =>
        outline (Document.ofFileText (m.translated c.defaultTranslations)).entries) ∧
    (HoldsMessages (Document.ofFileText out).entries
        ((keptMessages c.defaultTranslations (Document.ofFileText ftl).entries).map (·.id)) ↔
      ∀ m ∈ keptMessages c.defaultTranslations (Document.ofFileText ftl).entries,
        HoldsMessages (Document.ofFileText (m.translated c.defaultTranslations)).entries [m.id]) ∧
    ((∀ m ∈ keptMessages c.defaultTranslations (Document.ofFileText ftl).entries,
        ∃ pattern, m.ReadsAs c.defaultTranslations pattern) →
      HoldsMessages (Document.ofFileText out).entries
        ((keptMessages c.defaultTranslations (Document.ofFileText ftl).entries).map (·.id))) :=
  ⟨outline_merge h, holdsMessages_merge_iff h, holdsMessages_merge h⟩

/-- An open brace makes junk of its message, and the message below it stays. -/
theorem merge_holdsMessages_openBrace :
    (Document.ofFileText "a = Hello\nb = Bye\n").merge
        ((Catalog.empty.insert (.simple "Hello" "\x7b")).insert (.simple "Bye" "Salut")) =
      .ok "a = \x7b\nb = Salut" ∧
    outline (Document.ofFileText "a = \x7b\nb = Salut").entries = [none, some "b"] := by
  have hmerge : (Document.ofFileText "a = Hello\nb = Bye\n").merge
      ((Catalog.empty.insert (.simple "Hello" "\x7b")).insert (.simple "Bye" "Salut")) =
      .ok "a = \x7b\nb = Salut" := by decide +kernel
  refine ⟨hmerge, (merge_holdsMessages hmerge).1.trans ?_⟩
  decide +kernel

/-- A translation with an open brace is not a value, and its message is lost. -/
theorem merge_not_holdsMessages :
    ¬∀ (c : Catalog) (ftl out : String), (Document.ofFileText ftl).merge c = .ok out →
      HoldsMessages (Document.ofFileText out).entries
        ((keptMessages c.defaultTranslations (Document.ofFileText ftl).entries).map (·.id)) := by
  intro h
  have hbroken := h (Catalog.empty.insert (.simple "Hello" "\x7b")) "a = Hello\n" "a = \x7b"
    (by decide +kernel)
  exact absurd hbroken (by decide +kernel)

end Catalog

end FluentMerge
