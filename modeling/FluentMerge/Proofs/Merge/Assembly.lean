import FluentMerge.Document.Reading
import FluentMerge.Merge.Basic
import Mathlib.Data.List.Forall2

/-!
# Assembling a merged document

A document can be merged in parts: the merge of two lists of entries, one behind the other, is the
merge of the first, what separates the two, and the merge of the second (`mergeEntries_append`). So
an entry with which a document is not merged stops the merge wherever it stands, and the first such
entry is the one that is named. Where there is none, the texts of the entries stand in order with
the separators between them, and an empty text has both its separators too
(`mergeEntries_eq_ok_iff`).
-/

namespace FluentMerge

/-! ## Entries that stop a merge -/

/-- Whether the entry is one with which a document is not merged. -/
def Entry.IsUnsupported (e : Entry) : Prop := e.kind = .junk ∨ e.kind = .comment .document

/-- Whether `e` is the first entry with which the document is not merged. -/
def Document.FirstUnsupported (d : Document) (e : Entry) : Prop :=
  e.IsUnsupported ∧ ∃ before after, d.entries = before ++ e :: after ∧
    ∀ f ∈ before, ¬ f.IsUnsupported

/-- An entry that stops a merge is named with its kind and its place. -/
theorem Entry.translated_of_isUnsupported {e : Entry} (h : e.IsUnsupported) (t : Translations) :
    e.translated t = .error ⟨e.kind, e.span⟩ := by
  cases e with
  | comment level c => cases level <;> first | rfl | simp [IsUnsupported, kind] at h
  | junk j => rfl
  | _ => simp [IsUnsupported, kind] at h

/-- Every other entry has a text, be it an empty one. -/
theorem Entry.exists_translated {e : Entry} (h : ¬ e.IsUnsupported) (t : Translations) :
    ∃ text, e.translated t = .ok text := by
  cases e with
  | comment level c => cases level <;> first | exact ⟨_, rfl⟩ | simp [IsUnsupported, kind] at h
  | junk j => simp [IsUnsupported, kind] at h
  | _ => exact ⟨_, rfl⟩

theorem Document.exists_firstUnsupported (d : Document) :
    (∃ e, d.FirstUnsupported e) ∨ ∀ e ∈ d.entries, ¬ e.IsUnsupported := by
  classical
  cases hfind : d.entries.find? fun e => e.IsUnsupported with
  | none =>
    right
    simpa using hfind
  | some e =>
    left
    obtain ⟨he, before, after, hentries, hbefore⟩ := List.find?_eq_some_iff_append.1 hfind
    exact ⟨e, by simpa using he, before, after, hentries, by simpa using hbefore⟩

variable {t : Translations} {es xs ys : List Entry}

/-! ## Merging in parts -/

/-- Two lists of entries are merged one after the other, with what separates them in between. -/
theorem mergeEntries_append (hxs : xs ≠ []) (hys : ys ≠ []) :
    mergeEntries t (xs ++ ys) = do
      let first ← mergeEntries t xs
      let others ← mergeEntries t ys
      return first ++ separator (xs.getLast hxs).span (ys.head hys).span ++ others := by
  obtain ⟨f, ys, rfl⟩ := List.exists_cons_of_ne_nil hys
  induction xs with
  | nil => contradiction
  | cons e xs ih =>
    cases xs with
    | nil => rfl
    | cons g xs =>
      have htail := ih (List.cons_ne_nil g xs)
      simp only [List.cons_append] at htail ⊢
      simp only [mergeEntries, htail, List.getLast_cons_cons, bind_assoc, pure_bind,
        String.append_assoc]

/-- Without such an entry there is a merged text. -/
theorem exists_mergeEntries (h : ∀ e ∈ es, ¬ e.IsUnsupported) :
    ∃ text, mergeEntries t es = .ok text := by
  fun_induction mergeEntries t es with
  | case1 => exact ⟨_, rfl⟩
  | case2 e => exact Entry.exists_translated (h e (.head _)) t
  | case3 e f rest ih =>
    obtain ⟨first, hfirst⟩ := Entry.exists_translated (h e (.head _)) t
    obtain ⟨others, hothers⟩ := ih fun g hg => h g (.tail _ hg)
    rw [hfirst, hothers]
    exact ⟨_, rfl⟩

/-- A merge stops at an entry with which a document is not merged. -/
theorem mergeEntries_cons_of_isUnsupported {e : Entry} (he : e.IsUnsupported) (es : List Entry) :
    mergeEntries t (e :: es) = .error ⟨e.kind, e.span⟩ := by
  have herror := Entry.translated_of_isUnsupported he t
  cases es with
  | nil => exact herror
  | cons f es =>
    rw [mergeEntries, herror]
    rfl

/-- The first entry with which a document is not merged is the one that is named. -/
theorem mergeEntries_of_firstUnsupported {e : Entry}
    (h : Document.FirstUnsupported ⟨es⟩ e) : mergeEntries t es = .error ⟨e.kind, e.span⟩ := by
  obtain ⟨he, before, after, rfl, hbefore⟩ := h
  have hrest := mergeEntries_cons_of_isUnsupported (t := t) he after
  by_cases hnil : before = []
  · rw [hnil]
    exact hrest
  · obtain ⟨text, htext⟩ := exists_mergeEntries (t := t) hbefore
    rw [mergeEntries_append hnil (List.cons_ne_nil e after), htext, hrest]
    rfl

/-- The error of a merge tells the first entry that stops it, and every such entry makes one. -/
theorem mergeEntries_eq_error_iff {u : UnsupportedEntry} :
    mergeEntries t es = .error u ↔
      ∃ e, Document.FirstUnsupported ⟨es⟩ e ∧ u = ⟨e.kind, e.span⟩ := by
  constructor
  · intro h
    obtain ⟨e, he⟩ | hnone := Document.exists_firstUnsupported ⟨es⟩
    · have hfirst := mergeEntries_of_firstUnsupported (t := t) he
      exact ⟨e, he, Except.error.inj (h.symm.trans hfirst)⟩
    · obtain ⟨text, htext⟩ := exists_mergeEntries (t := t) hnone
      cases h.symm.trans htext
  · rintro ⟨e, he, rfl⟩
    exact mergeEntries_of_firstUnsupported he

/-! ## The merged text -/

/-- What separates each entry from the next one, in order. -/
def separators (es : List Entry) : List String :=
  List.zipWith (fun e f => separator e.span f.span) es es.tail

/-- Whether a text is put together of these entries: of the text of each, in order, and behind all
but the last what separates it from the next. -/
def IsAssembled (t : Translations) (es : List Entry) (out : String) : Prop :=
  ∃ texts, List.Forall₂ (fun e text => e.translated t = .ok text) es texts ∧
    out = String.join (List.zipWith (· ++ ·) texts (separators es ++ [""]))

theorem isAssembled_nil {out : String} : IsAssembled t [] out ↔ out = "" := by
  constructor
  · rintro ⟨texts, htexts, rfl⟩
    cases htexts
    rfl
  · rintro rfl
    exact ⟨[], .nil, rfl⟩

theorem isAssembled_singleton {e : Entry} {out : String} :
    IsAssembled t [e] out ↔ e.translated t = .ok out := by
  have hjoin (text : String) :
      String.join (List.zipWith (· ++ ·) [text] (separators [e] ++ [""])) = text := by
    simp [separators, String.join]
  constructor
  · rintro ⟨texts, htexts, rfl⟩
    obtain ⟨text, _, htext, hnil, rfl⟩ := List.forall₂_cons_left_iff.1 htexts
    cases hnil
    rw [hjoin, htext]
  · intro h
    exact ⟨[out], .cons h .nil, (hjoin out).symm⟩

theorem isAssembled_cons_cons {e f : Entry} {rest : List Entry} {out : String} :
    IsAssembled t (e :: f :: rest) out ↔ ∃ text others, e.translated t = .ok text ∧
      IsAssembled t (f :: rest) others ∧ out = text ++ separator e.span f.span ++ others := by
  have hjoin (text : String) (texts : List String) :
      String.join (List.zipWith (· ++ ·) (text :: texts) (separators (e :: f :: rest) ++ [""])) =
        text ++ separator e.span f.span ++
          String.join (List.zipWith (· ++ ·) texts (separators (f :: rest) ++ [""])) := by
    rw [separators, List.tail_cons, List.zipWith_cons_cons, List.cons_append,
      List.zipWith_cons_cons, String.join_cons]
    rfl
  constructor
  · rintro ⟨texts, htexts, rfl⟩
    obtain ⟨text, others, htext, hothers, rfl⟩ := List.forall₂_cons_left_iff.1 htexts
    exact ⟨text, _, htext, ⟨others, hothers, rfl⟩, hjoin text others⟩
  · rintro ⟨text, _, htext, ⟨texts, htexts, rfl⟩, rfl⟩
    exact ⟨text :: texts, .cons htext htexts, (hjoin text texts).symm⟩

/-- The merged text is the texts of the entries with the gaps between them. -/
theorem mergeEntries_eq_ok_iff {out : String} :
    mergeEntries t es = .ok out ↔ IsAssembled t es out := by
  fun_induction mergeEntries t es generalizing out with
  | case1 => rw [isAssembled_nil, Except.ok.injEq, eq_comm]
  | case2 e => rw [isAssembled_singleton]
  | case3 e f rest ih =>
    rw [isAssembled_cons_cons, bind_eq_ok_iff]
    constructor
    · rintro ⟨text, htext, h⟩
      obtain ⟨others, hothers, h⟩ := bind_eq_ok_iff.1 h
      cases h
      exact ⟨text, others, htext, ih.1 hothers, rfl⟩
    · rintro ⟨text, others, htext, hothers, rfl⟩
      exact ⟨text, htext, bind_eq_ok_iff.2 ⟨others, ih.2 hothers, rfl⟩⟩

/-- Merging is compositional: two lists of entries that are not empty are merged one after the
other, and a merge that fails in one of them fails with the first error. A merge names the first
entry with which a document is not merged, and gives the text that is put together of all entries
if there is none. -/
theorem merge_compositional (t : Translations) {xs ys : List Entry} (hxs : xs ≠ [])
    (hys : ys ≠ []) :
    (mergeEntries t (xs ++ ys) = do
      let first ← mergeEntries t xs
      let others ← mergeEntries t ys
      return first ++ separator (xs.getLast hxs).span (ys.head hys).span ++ others) ∧
    ∀ es, (∀ u, mergeEntries t es = .error u ↔
        ∃ e, Document.FirstUnsupported ⟨es⟩ e ∧ u = ⟨e.kind, e.span⟩) ∧
      ((∃ out, mergeEntries t es = .ok out) ↔ ∀ e ∈ es, ¬ e.IsUnsupported) ∧
      ∀ out, mergeEntries t es = .ok out ↔ IsAssembled t es out := by
  refine ⟨mergeEntries_append hxs hys, fun es => ⟨fun u => mergeEntries_eq_error_iff, ?_,
    fun out => mergeEntries_eq_ok_iff⟩⟩
  constructor
  · rintro ⟨out, hout⟩
    obtain ⟨e, he⟩ | hnone := Document.exists_firstUnsupported ⟨es⟩
    · cases hout.symm.trans (mergeEntries_of_firstUnsupported he)
    · exact hnone
  · exact exists_mergeEntries

/-- A catalog with one word. -/
def wordTranslations : Translations := (∅ : Translations).insert "Hi" (.simple "Hi" "Salut")

/-- A message with the word as its value. -/
def wordEntry (id : String) (span : Span) : Entry :=
  .message ⟨id, some ⟨[.text "Hi"]⟩, [], none, some span⟩

/-- A message and a term, and some way below them a comment that another message follows at once. -/
def entriesInParts : List Entry × List Entry :=
  ([wordEntry "a" ⟨0, 6⟩, .term ⟨"t", ⟨[.text "T"]⟩, [], none, some ⟨8, 14⟩⟩],
    [.comment .group ⟨"g", some ⟨17, 21⟩⟩, wordEntry "b" ⟨21, 27⟩])

/-- The term and the comment are left out, and what separates them from the messages is not. -/
theorem merge_compositional_word :
    entriesInParts.1 ≠ [] ∧ entriesInParts.2 ≠ [] ∧
    mergeEntries wordTranslations entriesInParts.1 = .ok "a = Salut\n\n" ∧
    mergeEntries wordTranslations entriesInParts.2 = .ok "b = Salut" ∧
    mergeEntries wordTranslations (entriesInParts.1 ++ entriesInParts.2) =
      .ok ("a = Salut\n\n" ++ "\n\n\n" ++ "b = Salut") := by
  have hfirst : mergeEntries wordTranslations entriesInParts.1 = .ok "a = Salut\n\n" := by
    decide +kernel
  have hothers : mergeEntries wordTranslations entriesInParts.2 = .ok "b = Salut" := by
    decide +kernel
  refine ⟨by decide, by decide, hfirst, hothers, ?_⟩
  rw [(merge_compositional wordTranslations (by decide) (by decide)).1, hfirst, hothers]
  decide +kernel

end FluentMerge
