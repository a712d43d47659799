import FluentMerge.Merge.Lookup
import FluentMerge.Proofs.Document.Entries
import FluentMerge.Proofs.Document.Progress
import Mathlib.Data.List.Chain
import Mathlib.Data.List.TakeWhile

/-!
# Patterns in normal form

The patterns of a document are in normal form: there is something in them, texts never stand side by
side, none is empty, and nothing blank is left at the end (`parse_isNormal`). So a pattern is one
simple text when there is no placeable in it.

Joining the parts of a pattern gives all of this but the end. Dropping the blanks at the end may
drop a whole text, and this is the point: the element before it is no text, and there is one, since
the first line of a pattern has something on it.
-/

namespace FluentMerge

open Read
open Text (IsSolid isWhite isSolid_trim)

/-! ## Elements -/

namespace PatternElement

/-- Whether an element is a text. -/
def IsText : PatternElement → Prop
  | .text _ => True
  | .placeable _ => False

/-- Whether an element is text without braces, or source with no white space at its ends. -/
def IsLegal : PatternElement → Prop
  | .text v => '{' ∉ v.toList ∧ '}' ∉ v.toList
  | .placeable source => IsSolid source.toList

/-- Whether there is something in an element that no trimming removes. -/
def HasContent : PatternElement → Prop
  | .text v => ∃ c ∈ v.toList, c ≠ ' ' ∧ c ≠ '\n'
  | .placeable _ => True

/-- Whether an element does not end with a blank, as far as it is text. -/
def EndsFirmly : PatternElement → Prop
  | .text v => ∀ c ∈ v.toList.getLast?, c ≠ ' ' ∧ c ≠ '\n'
  | .placeable _ => True

end PatternElement

namespace Pattern

/-! ## Joining -/

/-- Whether texts never stand side by side, none is empty, and all elements are legal. -/
structure IsJoined (es : List PatternElement) : Prop where
  apart : es.IsChain fun e f => ¬ (e.IsText ∧ f.IsText)
  nonempty : .text "" ∉ es
  legal : ∀ e ∈ es, e.IsLegal

variable {e : PatternElement} {es : List PatternElement}

theorem isJoined_nil : IsJoined [] := ⟨.nil, by simp, by simp⟩

/-- A placeable can stand before any elements. -/
theorem IsJoined.placeable (h : IsJoined es) {source : String}
    (hlegal : (PatternElement.placeable source).IsLegal) : IsJoined (.placeable source :: es) where
  apart := List.isChain_cons.2 ⟨fun _ _ hboth => hboth.1, h.apart⟩
  nonempty := by simpa using h.nonempty
  legal := List.forall_mem_cons.2 ⟨hlegal, h.legal⟩

/-- A text can stand before elements of which the first is no text. -/
theorem IsJoined.text (h : IsJoined es) {v : String} (hv : v ≠ "")
    (hlegal : (PatternElement.text v).IsLegal) (hhead : ∀ e ∈ es.head?, ¬ e.IsText) :
    IsJoined (.text v :: es) where
  apart := List.isChain_cons.2 ⟨fun e he hboth => hhead e he hboth.2, h.apart⟩
  nonempty := by simpa [hv.symm] using h.nonempty
  legal := List.forall_mem_cons.2 ⟨hlegal, h.legal⟩

theorem IsJoined.tail (h : IsJoined (e :: es)) : IsJoined es where
  apart := h.apart.tail
  nonempty := fun hmem => h.nonempty (List.mem_cons_of_mem e hmem)
  legal := (List.forall_mem_cons.1 h.legal).2

/-- What is put before joined elements is joined to them. -/
theorem IsJoined.joinBefore (h : IsJoined es) (he : e.IsLegal) : IsJoined (joinBefore e es) := by
  cases e with
  | placeable source => exact h.placeable he
  | text a =>
    by_cases ha : a = ""
    · subst ha
      cases es with
      | nil => exact h
      | cons f es => cases f <;> simpa [Pattern.joinBefore] using h
    · cases es with
      | nil =>
        rw [Pattern.joinBefore, if_neg ha]
        · exact isJoined_nil.text ha he (by simp)
        · simp
      | cons f es =>
        cases f with
        | placeable source =>
          rw [Pattern.joinBefore, if_neg ha]
          · exact h.text ha he (by simp [PatternElement.IsText])
          · simp
        | text b =>
          have hb : (PatternElement.text b).IsLegal := h.legal _ (.head _)
          refine h.tail.text (by simp [ha]) ?_ ?_
          · simp only [PatternElement.IsLegal, String.toList_append, List.mem_append, not_or] at *
            exact ⟨⟨he.1, hb.1⟩, he.2, hb.2⟩
          · intro e hhead htext
            exact (List.isChain_cons.1 h.apart).1 e hhead ⟨trivial, htext⟩

/-- Elements are joined from the last one on, and all of them are joined in the end. -/
theorem isJoined_foldr (h : ∀ e ∈ es, e.IsLegal) : IsJoined (es.foldr joinBefore []) := by
  induction es with
  | nil => exact isJoined_nil
  | cons e es ih =>
    rw [List.forall_mem_cons] at h
    exact (ih h.2).joinBefore h.1

/-- Whether there is something in one of the elements. -/
def HasContent (es : List PatternElement) : Prop := ∃ e ∈ es, e.HasContent

/-- Joining loses nothing. -/
theorem hasContent_joinBefore (h : HasContent (e :: es)) : HasContent (joinBefore e es) := by
  rw [HasContent, List.exists_mem_cons_iff] at h
  cases e with
  | placeable source => exact ⟨_, .head _, trivial⟩
  | text a =>
    cases es with
    | nil =>
      obtain ⟨c, hc, hne⟩ := h.resolve_right (by simp)
      have ha : a ≠ "" := by
        rintro rfl
        cases hc
      exact ⟨.text a, by simp [joinBefore, ha], c, hc, hne⟩
    | cons f es =>
      cases f with
      | placeable source =>
        refine ⟨.placeable source, ?_, trivial⟩
        by_cases ha : a = "" <;> simp [joinBefore, ha]
      | text b =>
        rcases h with ⟨c, hc, hne⟩ | ⟨f, hf, hcontent⟩
        · exact ⟨_, .head _, c, by simp [hc], hne⟩
        · rcases List.mem_cons.1 hf with rfl | hf
          · obtain ⟨c, hc, hne⟩ := hcontent
            exact ⟨_, .head _, c, by simp [hc], hne⟩
          · exact ⟨f, .tail _ hf, hcontent⟩

/-- So elements with something in one of them have it in them when they are joined. -/
theorem hasContent_foldr (h : HasContent es) : HasContent (es.foldr joinBefore []) := by
  induction es with
  | nil => exact h
  | cons e es ih =>
    apply hasContent_joinBefore
    obtain ⟨f, hf, hcontent⟩ := h
    rcases List.mem_cons.1 hf with rfl | hf
    · exact ⟨f, .head _, hcontent⟩
    · obtain ⟨g, hg, hcontent⟩ := ih ⟨f, hf, hcontent⟩
      exact ⟨g, .tail _ hg, hcontent⟩

/-! ## The end -/

theorem toList_dropTrailingBlank (v : String) :
    (dropTrailingBlank v).toList =
      (v.toList.reverse.dropWhile fun c => c == ' ' || c == '\n').reverse :=
  String.toList_ofList

/-- Blanks are dropped from the end of a text up to a character that is not one. -/
theorem endsFirmly_dropTrailingBlank (v : String) :
    (PatternElement.text (dropTrailingBlank v)).EndsFirmly := by
  intro c hc
  rw [toList_dropTrailingBlank, List.getLast?_reverse] at hc
  have hhead := List.head?_dropWhile_not (fun c => c == ' ' || c == '\n') v.toList.reverse
  rw [Option.mem_def.1 hc] at hhead
  simpa using hhead

theorem mem_of_mem_dropTrailingBlank {v : String} {c : Char}
    (h : c ∈ (dropTrailingBlank v).toList) : c ∈ v.toList := by
  rw [toList_dropTrailingBlank, List.mem_reverse] at h
  exact List.mem_reverse.1 ((List.dropWhile_sublist _).subset h)

/-- A text with something in it is not dropped. -/
theorem dropTrailingBlank_ne {v : String} (h : (PatternElement.text v).HasContent) :
    dropTrailingBlank v ≠ "" := by
  obtain ⟨c, hc, hne⟩ := h
  intro hempty
  have hall := congrArg String.toList hempty
  rw [toList_dropTrailingBlank, String.toList_empty, List.reverse_eq_nil_iff,
    List.dropWhile_eq_nil_iff] at hall
  have hblank := hall c (List.mem_reverse.2 hc)
  simp [hne] at hblank

/-- Only the last element is changed. -/
theorem dropLastBlank_concat (es : List PatternElement) (e : PatternElement) :
    dropLastBlank (es ++ [e]) = es ++ dropLastBlank [e] := by
  induction es with
  | nil => rfl
  | cons f es ih =>
    rw [List.cons_append, dropLastBlank, ih, List.cons_append]
    rintro a rfl hnil
    simp at hnil

end Pattern

/-- Whether a pattern is in normal form: there is something in it, its elements are joined, and the
last of them does not end with a blank. -/
structure Pattern.IsNormal (p : Pattern) : Prop extends Pattern.IsJoined p.elements where
  ne_nil : p.elements ≠ []
  last : ∀ e ∈ p.elements.getLast?, e.EndsFirmly

namespace Pattern

variable {es : List PatternElement}

/-- Dropping the blanks at the end may drop the last text as a whole. Then a placeable is last, and
if the text was the only element it was blank. -/
theorem isNormal_dropLastBlank (h : IsJoined es) (hcontent : HasContent es) :
    IsNormal ⟨dropLastBlank es⟩ := by
  rcases List.eq_nil_or_concat es with rfl | ⟨init, e, rfl⟩
  · obtain ⟨e, he, -⟩ := hcontent
    cases he
  rw [List.concat_eq_append] at *
  obtain ⟨hinit, -, hbetween⟩ := List.isChain_append.1 h.apart
  have hjoined : IsJoined init :=
    ⟨hinit, fun hmem => h.nonempty (List.mem_append_left _ hmem),
      fun f hf => h.legal f (List.mem_append_left _ hf)⟩
  rw [dropLastBlank_concat]
  cases e with
  | placeable source =>
    rw [show dropLastBlank [.placeable source] = [.placeable source] from rfl]
    exact ⟨h, by simp, by simp [PatternElement.EndsFirmly]⟩
  | text a =>
    by_cases hdropped : dropTrailingBlank a = ""
    · -- the text is gone, and the element before it is no text
      rw [dropLastBlank, if_pos hdropped, List.append_nil]
      refine ⟨hjoined, ?_, ?_⟩
      · rintro rfl
        obtain ⟨e, he, hcontent⟩ := hcontent
        obtain rfl := List.mem_singleton.1 he
        exact dropTrailingBlank_ne hcontent hdropped
      · intro e he
        cases e with
        | placeable source => trivial
        | text b => exact absurd ⟨trivial, trivial⟩ (hbetween _ he (.text a) rfl)
    · rw [dropLastBlank, if_neg hdropped]
      have hlegal : (PatternElement.text a).IsLegal := h.legal _ (by simp)
      refine ⟨⟨?_, ?_, ?_⟩, by simp, ?_⟩
      · refine List.isChain_append.2 ⟨hinit, .singleton _, fun e he f hf hboth => ?_⟩
        exact hbetween e he (.text a) rfl ⟨hboth.1, trivial⟩
      · simpa [Ne.symm hdropped] using hjoined.nonempty
      · intro e he
        rcases List.mem_append.1 he with he | he
        · exact hjoined.legal e he
        · obtain rfl := List.mem_singleton.1 he
          exact ⟨mt mem_of_mem_dropTrailingBlank hlegal.1, mt mem_of_mem_dropTrailingBlank hlegal.2⟩
      · simpa using endsFirmly_dropTrailingBlank a

/-- A simple text is a pattern without placeables. -/
theorem IsNormal.isSome_simpleText?_iff {p : Pattern} (h : p.IsNormal) :
    p.simpleText?.isSome ↔ ∀ source, .placeable source ∉ p.elements := by
  obtain ⟨elements⟩ := p
  cases elements with
  | nil => exact absurd rfl h.ne_nil
  | cons e es =>
    cases e with
    | placeable source =>
      exact iff_of_false (by simp [simpleText?]) fun hnone => hnone source (.head _)
    | text a =>
      have ha : a ≠ "" := by
        rintro rfl
        exact h.nonempty (.head _)
      cases es with
      | nil => simp [simpleText?, ha]
      | cons f es =>
        cases f with
        | placeable source =>
          exact iff_of_false (by simp [simpleText?]) fun hnone => hnone source (.tail _ (.head _))
        | text b =>
          have hapart := (List.isChain_cons_cons.1 h.apart).1
          exact absurd ⟨trivial, trivial⟩ hapart

end Pattern

/-! ## Parts -/

namespace PatternPart

/-- Whether a part is as reading gives it. -/
def IsRead : PatternPart → Prop
  | .text v => ∀ c ∈ v, isTextChar c = true
  | .placeable source => IsSolid source
  | .indent _ _ => True

/-- Whether there is something in a part. -/
def HasContent : PatternPart → Prop
  | .text v => ∃ c ∈ v, c ≠ ' ' ∧ c ≠ '\n'
  | .placeable _ => True
  | .indent _ _ => False

variable {part : PatternPart}

/-- Taking the common indent off a line leaves its text legal, since spaces are no braces. -/
theorem IsRead.isLegal_element (h : part.IsRead) (common : Nat) :
    (part.element common).IsLegal := by
  cases part with
  | text v =>
    have hbrace {c : Char} (hc : isTextChar c = false) : c ∉ v := by
      intro hmem
      rw [h c hmem] at hc
      cases hc
    constructor
    · rw [String.toList_ofList]
      exact hbrace rfl
    · rw [String.toList_ofList]
      exact hbrace rfl
  | placeable source =>
    show IsSolid (String.ofList source).toList
    rwa [String.toList_ofList]
  | indent lineEnds spaces => constructor <;> simp [List.mem_replicate]

/-- Nor does it take what is on the line. -/
theorem HasContent.element (h : part.HasContent) (common : Nat) :
    (part.element common).HasContent := by
  cases part with
  | text v =>
    obtain ⟨c, hc, hne⟩ := h
    exact ⟨c, by rwa [String.toList_ofList], hne⟩
  | placeable source => trivial
  | indent lineEnds spaces => exact h.elim

end PatternPart

/-- The value of parts that were read, with something in one of them, is in normal form. -/
theorem Pattern.isNormal_ofParts {parts : List PatternPart} (h : ∀ part ∈ parts, part.IsRead)
    (hcontent : ∃ part ∈ parts, part.HasContent) : (Pattern.ofParts parts).IsNormal := by
  apply isNormal_dropLastBlank
  · apply isJoined_foldr
    rw [List.forall_mem_map]
    exact fun part hpart => (h part hpart).isLegal_element _
  · obtain ⟨part, hpart, hcontent⟩ := hcontent
    exact hasContent_foldr ⟨_, List.mem_map_of_mem hpart, hcontent.element _⟩

namespace Read

variable {c : Char} {s t rest : List Char} {parts : List PatternPart}

/-- The source of a placeable is solid. -/
theorem isSolid_placeableSource (h : outcome (placeable t) = .ok ((), rest)) :
    IsSolid (placeableSource (consumed t rest)) := by
  rw [outcome_placeable] at h
  obtain ⟨⟨⟨⟩, u⟩, hinside, hclose⟩ := bind_eq_ok_iff.1 h
  obtain ⟨inside, hinside, -, hrest⟩ := outcome_eq_ok_iff.1 hinside
  obtain ⟨c, v, hs, hc, hle⟩ := expression_head hinside
  -- what was read between the braces begins with `c`
  obtain ⟨w, hw⟩ := inside.isSuffix
  rw [hrest] at hw hle
  have hmem : c ∈ w := by
    cases w with
    | nil =>
      rw [List.nil_append, hs] at hw
      rw [hw, List.length_cons] at hle
      omega
    | cons d w =>
      rw [hs, List.cons_append, List.cons.injEq] at hw
      exact hw.1 ▸ .head _
  obtain rfl : u = '}' :: rest := expect_cases hclose
  obtain ⟨blank, hblank⟩ := skipBlank_suffix t
  have ht : t = (blank ++ w ++ ['}']) ++ rest := by
    rw [← hblank, ← hw]
    simp
  rw [consumed_eq ht, placeableSource, List.dropLast_concat]
  exact isSolid_trim (List.mem_append_right _ hmem) hc

/-- The parts of a pattern are read one after the other, and the first one has something in it when
it is not the beginning of a line. -/
theorem patternParts_step (h : outcome (patternParts (c :: t)) = .ok (parts, rest)) :
    c = '\n' ∧ parts = [] ∨ ∃ part others u, parts = part :: others ∧
      outcome (patternParts u) = .ok (others, rest) ∧ u.length ≤ t.length ∧ part.IsRead ∧
        (c ≠ ' ' → c ≠ '\n' → part.HasContent) := by
  rw [outcome_patternParts] at h
  split at h
  · next hline =>
    split at h
    · obtain ⟨⟨others, u⟩, hothers, h⟩ := map_eq_ok_iff.1 h
      cases h
      -- a line end with the blank lines and the indent below it
      refine .inr ⟨_, others, _, rfl, hothers, ?_, trivial, fun _ hne => absurd hline hne⟩
      exact ((skipSpaces_suffix _).trans (skipBlankLines_suffix t)).length_le
    · cases h
      -- nothing of the value is below
      exact .inl ⟨hline, rfl⟩
  split at h
  · obtain ⟨⟨⟨⟩, u⟩, hclosed, h⟩ := bind_eq_ok_iff.1 h
    obtain ⟨⟨others, v⟩, hothers, h⟩ := map_eq_ok_iff.1 h
    cases h
    exact .inr ⟨_, others, u, rfl, hothers, (outcome_suffix hclosed).length_le,
      isSolid_placeableSource hclosed, fun _ _ => trivial⟩
  split at h
  · cases h
  · next hline hopen hclose =>
    obtain ⟨⟨others, v⟩, hothers, h⟩ := map_eq_ok_iff.1 h
    cases h
    -- text up to a brace or a line end
    refine .inr ⟨_, others, _, rfl, hothers, (List.dropWhile_suffix _).length_le, ?_, ?_⟩
    · have hall := List.all_takeWhile (l := t) (p := isTextChar)
      rw [List.all_eq_true] at hall
      exact List.forall_mem_cons.2 ⟨by simp [isTextChar, hline, hopen, hclose], hall⟩
    · intro hspace hline
      exact ⟨c, .head _, hspace, hline⟩

/-- By induction on the length of the text that is left: each part is read as in
`patternParts_step`. -/
theorem isRead_of_patternParts (h : outcome (patternParts s) = .ok (parts, rest)) :
    ∀ part ∈ parts, part.IsRead := by
  induction hn : s.length using Nat.strongRecOn generalizing s parts with
  | ind n ih =>
    subst hn
    cases s with
    | nil =>
      rw [outcome_patternParts_nil] at h
      cases h
      simp
    | cons c t =>
      obtain ⟨-, rfl⟩ | ⟨part, others, u, rfl, hothers, hlength, hread, -⟩ := patternParts_step h
      · simp
      · exact List.forall_mem_cons.2 ⟨hread, ih _ (Nat.lt_succ_of_le hlength) hothers rfl⟩

/-- No space is left in front when spaces are skipped. -/
theorem head?_skipSpaces (s : List Char) : ∀ c ∈ (skipSpaces s).head?, c ≠ ' ' := by
  intro c hc
  have hhead := List.head?_dropWhile_not (· == ' ') s
  rw [skipSpaces] at hc
  rw [Option.mem_def.1 hc] at hhead
  simpa using hhead

/-- Where a line has something on it there is something in the pattern that begins on it. -/
theorem hasContent_of_patternParts (h : outcome (patternParts (skipSpaces s)) = .ok (parts, rest))
    (hline : (skipSpaces s).head?.any (· != '\n')) : ∃ part ∈ parts, part.HasContent := by
  have hspace := head?_skipSpaces s
  cases hs : skipSpaces s with
  | nil =>
    rw [hs] at hline
    cases hline
  | cons c t =>
    rw [hs] at h hline hspace
    replace hline : c ≠ '\n' := by simpa using hline
    obtain ⟨hend, -⟩ | ⟨part, others, u, rfl, -, -, -, hcontent⟩ := patternParts_step h
    · exact absurd hend hline
    · exact ⟨part, .head _, hcontent (hspace c rfl) hline⟩

/-- A line that goes on with a value has something on it. -/
theorem head?_of_continuesValue (h : continuesValue s = true) :
    (skipSpaces s).head?.any (· != '\n') := by
  unfold continuesValue at h
  split at h
  · cases h
  · next c t hs =>
    rw [hs, List.head?_cons, Option.any_some, bne_iff_ne]
    rintro rfl
    simp at h

/-- A value begins behind its mark or on a line below. In both places it begins with a character
that is not blank, so there is something in it. -/
theorem isNormal_of_pattern? {p : Pattern} (h : outcome (pattern? s) = .ok (some p, rest)) :
    p.IsNormal := by
  rw [outcome_pattern?] at h
  split at h
  · next hline =>
    obtain ⟨⟨parts, u⟩, hparts, h⟩ := map_eq_ok_iff.1 h
    cases h
    exact Pattern.isNormal_ofParts (isRead_of_patternParts hparts)
      (hasContent_of_patternParts hparts hline)
  split at h
  · next hcontinues =>
    obtain ⟨⟨parts, u⟩, hparts, h⟩ := map_eq_ok_iff.1 h
    cases h
    apply Pattern.isNormal_ofParts
    · exact List.forall_mem_cons.2 ⟨trivial, isRead_of_patternParts hparts⟩
    · obtain ⟨part, hpart, hcontent⟩ :=
        hasContent_of_patternParts hparts (head?_of_continuesValue hcontinues)
      exact ⟨part, .tail _ hpart, hcontent⟩
  · cases h

theorem isNormal_of_definition {id : String} {p : Pattern}
    (h : outcome (definition s) = .ok ((id, some p), rest)) : p.IsNormal := by
  obtain ⟨t, u, -, -, hvalue⟩ := definition_cases h
  exact isNormal_of_pattern? hvalue

theorem isNormal_of_attributes {attributes : List Attribute}
    (h : outcome (Read.attributes s) = .ok (attributes, rest)) :
    ∀ a ∈ attributes, a.value.IsNormal :=
  forall_mem_attributes (fun _ _ _ _ hfirst => isNormal_of_definition hfirst) h

end Read

/-! ## Entries -/

/-- The patterns of an entry: its value if it has one, and the values of its attributes. -/
def Entry.patterns : Entry → List Pattern
  | .message m => m.value.toList ++ m.attributes.map (·.value)
  | .term t => t.value :: t.attributes.map (·.value)
  | _ => []

/-- Whether the patterns of an entry are in normal form, and there is one if it is a message. -/
structure Entry.IsNormal (e : Entry) : Prop where
  patterns : ∀ p ∈ e.patterns, p.IsNormal
  nonempty : ∀ m, e = .message m → m.value ≠ none ∨ m.attributes ≠ []

namespace Read

variable {s rest : List Char}

/-- A message can do without a value, and then it has an attribute. -/
theorem isNormal_of_message {m : Message} (h : outcome (message s) = .ok (m, rest)) :
    (Entry.message m).IsNormal := by
  obtain ⟨t, hhead, htail, hcontent, -⟩ := message_cases h
  refine ⟨?_, ?_⟩
  · intro p hp
    rcases List.mem_append.1 hp with hp | hp
    · rw [Option.mem_toList.1 hp] at hhead
      exact isNormal_of_definition hhead
    · obtain ⟨a, ha, rfl⟩ := List.mem_map.1 hp
      exact isNormal_of_attributes htail a ha
  · rintro m heq
    cases heq
    exact hcontent

theorem isNormal_of_term {t : Term} (h : outcome (term s) = .ok (t, rest)) :
    (Entry.term t).IsNormal := by
  obtain ⟨u, hhead, htail, -⟩ := term_cases h
  refine ⟨List.forall_mem_cons.2 ⟨isNormal_of_definition hhead, ?_⟩, nofun⟩
  rw [List.forall_mem_map]
  exact isNormal_of_attributes htail

theorem isNormal_of_comment {e : Entry} (h : outcome (comment s) = .ok (e, rest)) :
    e.IsNormal := by
  obtain ⟨level, lines, -, -, rfl⟩ := comment_cases h
  exact ⟨by simp [Entry.patterns], nofun⟩

/-- Only messages and terms have patterns. -/
theorem isNormal_of_entry {e : Entry} (h : outcome (entry s) = .ok (e, rest)) : e.IsNormal := by
  cases entryRead_of_entry h with
  | comment hcomment => exact isNormal_of_comment hcomment
  | term hterm => exact isNormal_of_term hterm
  | message hc hmessage => exact isNormal_of_message hmessage

end Read

theorem Entry.IsNormal.withSpan {e : Entry} (h : e.IsNormal) (span : Span) :
    (e.withSpan span).IsNormal := by
  cases e with
  | message m =>
    refine ⟨h.patterns, ?_⟩
    rintro m' heq
    cases heq
    exact h.nonempty m rfl
  | term t => exact ⟨h.patterns, nofun⟩
  | comment level c => exact ⟨h.patterns, nofun⟩
  | junk j => exact ⟨h.patterns, nofun⟩

/-- A comment above an entry changes nothing in its patterns. -/
theorem Comment.attachTo?_isNormal {c : Comment} {below e : Entry} (hbelow : below.IsNormal)
    (h : c.attachTo? below = some e) : e.IsNormal := by
  obtain ⟨m, rfl, rfl⟩ | ⟨t, rfl, rfl⟩ := Comment.attachTo?_cases h
  · refine ⟨hbelow.patterns, ?_⟩
    rintro m' heq
    cases heq
    exact hbelow.nonempty m rfl
  · exact ⟨hbelow.patterns, nofun⟩

/-- Every pattern of a document is in normal form and every message has one. So a pattern is a
simple text when there is no placeable in it. -/
theorem parse_isNormal (text : String) :
    (∀ e ∈ (Document.parse text).entries, e.IsNormal) ∧
      ∀ e ∈ (Document.parse text).entries, ∀ p ∈ e.patterns,
        (p.simpleText?.isSome ↔ ∀ source, .placeable source ∉ p.elements) := by
  have hnormal : ∀ e ∈ (Document.parse text).entries, e.IsNormal := by
    apply forall_mem_parse
    · intro t _ e rest span h
      exact (isNormal_of_entry h).withSpan span
    · intro content reason span
      exact ⟨by simp [Entry.patterns], nofun⟩
    · intro c below e _ hbelow h
      exact Comment.attachTo?_isNormal hbelow h
  refine ⟨hnormal, ?_⟩
  intro e he p hp
  exact ((hnormal e he).patterns p hp).isSome_simpleText?_iff

end FluentMerge
