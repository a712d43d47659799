import FluentMerge.Proofs.Document.Composition
import FluentMerge.Proofs.Merge.Spread
import FluentMerge.Proofs.Text.LineEnds

/-!
# The text of a translated message

A message that is kept is written as the lines of its comment, a line with its name and its value,
and a line for each attribute that is kept (`toList_translated`). Whatever the translations are,
that text begins with a comment or with a name and an equals sign (`opensText_translated`).
-/

namespace FluentMerge

open Read
open Text (unifyLineEnds unifyLineEnds_append unifyLineEnds_cons)

/-- The attributes that have a translation. -/
def Message.keptAttributes (m : Message) (t : Translations) : List Attribute :=
  m.attributes.filter fun a => t.ofPattern (some a.value) ≠ ""

/-- The line of an attribute with its translation, behind the end of the line above. -/
def Attribute.translatedText (a : Attribute) (t : Translations) : List Char :=
  "\n  .".toList ++ (a.id.toList ++ (" = ".toList ++ (t.ofPattern (some a.value)).toList))

/-- A line of a comment with its mark. -/
def markedLine (line : List Char) : List Char :=
  if line = [] then ['#'] else '#' :: ' ' :: line

/-- The lines of a comment, each with its end. -/
def Comment.markedText (c : Comment) : List Char :=
  (c.content.toList.splitOn '\n').flatMap fun line => markedLine line ++ ['\n']

/-- The name and the translated value of a message, and its translated attributes. -/
def Message.translatedText (m : Message) (t : Translations) : List Char :=
  m.id.toList ++ (" = ".toList ++ ((t.ofPattern m.value).toList ++
    (m.keptAttributes t).flatMap (·.translatedText t)))

theorem intercalate_around (d : Char) (above : List (List Char)) (line : List Char)
    (below : List (List Char)) :
    [d].intercalate (above ++ line :: below) =
      above.flatMap (· ++ [d]) ++ (line ++ below.flatMap (d :: ·)) := by
  induction above with
  | nil =>
    induction below generalizing line with
    | nil => simp
    | cons next below ih =>
      rw [List.nil_append, List.intercalate_cons_cons, ← List.nil_append (next :: below), ih]
      simp
  | cons first above ih =>
    rw [List.cons_append, List.intercalate_cons_of_ne_nil (by simp), ih]
    simp

theorem attributeLines_eq (m : Message) (t : Translations) :
    (m.attributeLines t).flatMap (fun line => '\n' :: line.toList) =
      (m.keptAttributes t).flatMap (·.translatedText t) := by
  rw [Message.attributeLines, Message.keptAttributes]
  induction m.attributes with
  | nil => rfl
  | cons a attributes ih =>
    by_cases ha : t.ofPattern (some a.value) = ""
    · have hline : a.translatedLine? t = none := if_pos ha
      rw [List.filterMap_cons_none (f := fun a : Attribute => a.translatedLine? t) hline,
        List.filter_cons_of_neg (by simpa using ha), ih]
    · have hline : a.translatedLine? t =
          some ("  ." ++ a.id ++ " = " ++ t.ofPattern (some a.value)) := if_neg ha
      rw [List.filterMap_cons_some (f := fun a : Attribute => a.translatedLine? t) hline,
        List.filter_cons_of_pos (by simpa using ha), List.flatMap_cons, List.flatMap_cons, ih]
      simp [Attribute.translatedText]

theorem markedLines_eq (c : Comment) :
    c.markedLines.flatMap (fun line => line.toList ++ ['\n']) = c.markedText := by
  rw [Comment.markedLines, List.flatMap_map, Comment.markedText]
  congr 1
  funext line
  by_cases h : line = [] <;> simp [markedLine, h]

/-- The text of a message that is kept. -/
theorem toList_translated {m : Message} {t : Translations} (h : m.translated t ≠ "") :
    (m.translated t).toList =
      (m.comment.map Comment.markedText).getD [] ++ m.translatedText t := by
  have hkept : ¬(t.ofPattern m.value = "" ∧ m.attributeLines t = []) :=
    fun hnone => h (if_pos hnone)
  have htext : m.translated t = "\n".intercalate ((m.comment.map Comment.markedLines).getD [] ++
      (m.id ++ " = " ++ t.ofPattern m.value) :: m.attributeLines t) := if_neg hkept
  have hcomment : ((m.comment.map Comment.markedLines).getD []).flatMap
      (fun line => line.toList ++ ['\n']) = (m.comment.map Comment.markedText).getD [] := by
    cases m.comment with
    | none => rfl
    | some c => exact markedLines_eq c
  rw [htext, String.toList_intercalate, List.map_append, List.map_cons]
  have hline : "\n".toList = ['\n'] := rfl
  rw [hline, intercalate_around, List.flatMap_map, List.flatMap_map, hcomment, attributeLines_eq]
  simp [Message.translatedText]

/-! ## What a message's text begins with -/

/-- Whether a text begins with an entry, whatever follows it, when line ends are made one kind. -/
def OpensText (x : List Char) : Prop :=
  ∀ s, Opens (unifyLineEnds (x ++ s)) ∧ (unifyLineEnds (x ++ s)).head? ≠ some '.'

/-- The lines of a comment begin with its mark. -/
theorem markedText_eq_cons (c : Comment) : ∃ t, c.markedText = '#' :: t := by
  obtain ⟨line, lines, hlines⟩ := List.exists_cons_of_ne_nil
    (List.splitOn_ne_nil '\n' c.content.toList)
  rw [Comment.markedText, hlines, List.flatMap_cons, markedLine]
  split <;> exact ⟨_, rfl⟩

theorem IsName.not_mem {id : String} (h : IsName id) : '\r' ∉ id.toList := by
  obtain ⟨c, name, hid, hc, hname⟩ := h
  rw [hid]
  intro hmem
  rcases List.mem_cons.1 hmem with rfl | hmem
  · cases hc
  · cases hname '\r' hmem

/-- The text of a message begins with a comment, or with its name and an equals sign. -/
theorem opensText_translated {m : Message} {t : Translations} (hm : m.IsLegible)
    (h : m.translated t ≠ "") : OpensText (m.translated t).toList := by
  intro s
  rw [toList_translated h]
  cases m.comment with
  | none =>
    -- the message begins with its name and an equals sign
    obtain ⟨c, name, hid, hc, hname⟩ := hm.name
    have htext : ([] ++ m.translatedText t) ++ s = m.id.toList ++ ([' ', '='] ++
        (' ' :: ((t.ofPattern m.value).toList ++
          ((m.keptAttributes t).flatMap (·.translatedText t) ++ s)))) := by
      simp [Message.translatedText]
    rw [Option.map_none, Option.getD_none, htext, unifyLineEnds_append hm.name.not_mem,
      unifyLineEnds_append (by decide), hid]
    refine ⟨@Opens.message c name [' '] _ hc hname (by simp), ?_⟩
    rintro hpoint
    cases Option.some.inj hpoint
    cases hc
  | some c =>
    -- the comment begins with its mark
    obtain ⟨u, hu⟩ := markedText_eq_cons c
    rw [Option.map_some, Option.getD_some, hu, List.cons_append, List.cons_append,
      unifyLineEnds_cons (by decide)]
    exact ⟨.comment _, by simp⟩

/-! ## Texts one below the other -/

theorem dropByteOrderMark_eq_self {x : List Char} (h : (unifyLineEnds x).head? ≠ some '\ufeff') :
    Text.dropByteOrderMark x = x := by
  apply Text.dropByteOrderMark_of_head
  intro hx
  obtain ⟨s, rfl⟩ := List.head?_eq_some_iff.1 hx
  rw [unifyLineEnds_cons (by decide)] at h
  exact h rfl

theorem Opens.head_ne_byteOrderMark {t : List Char} (h : Opens t) : t.head? ≠ some '\ufeff' := by
  cases h with
  | message _ hc _ _ =>
    rintro hmark
    rw [Option.some.inj hmark] at hc
    cases hc
  | _ => simp

/-- Behind line ends the first of the texts begins. -/
theorem Spread.opens {texts : List (List Char)} {s : List Char} (h : Spread texts s)
    (hopens : ∀ x ∈ texts, OpensText x) :
    ∃ n t, unifyLineEnds s = List.replicate n '\n' ++ t ∧ Opens t ∧ t.head? ≠ some '.' := by
  induction h with
  | nil => exact ⟨0, [], rfl, .nothing, by simp⟩
  | lineEnd _ ih =>
    obtain ⟨n, t, hs, ht, hpoint⟩ := ih hopens
    exact ⟨n + 1, t, by rw [unifyLineEnds_cons (by decide), hs, List.replicate_succ,
      List.cons_append], ht, hpoint⟩
  | @text x s _ _ _ _ =>
    exact ⟨0, _, rfl, (hopens x (by simp) s).1, (hopens x (by simp) s).2⟩

/-- No byte order mark stands in front of spread texts. -/
theorem Spread.dropByteOrderMark_eq {texts : List (List Char)} {s : List Char} (h : Spread texts s)
    (hopens : ∀ x ∈ texts, OpensText x) : Text.dropByteOrderMark s = s := by
  apply dropByteOrderMark_eq_self
  obtain ⟨n, t, hs, ht, -⟩ := h.opens hopens
  rw [hs]
  cases n with
  | zero => exact ht.head_ne_byteOrderMark
  | succ n => simp [List.replicate_succ]

/-- Behind the end of a line the texts stand below. -/
theorem Spread.isBelow {texts : List (List Char)} {s : List Char} (h : Spread texts ('\n' :: s))
    (hopens : ∀ x ∈ texts, OpensText x) : IsBelow ('\n' :: unifyLineEnds s) := by
  obtain ⟨n, t, hs, ht, hpoint⟩ := h.opens hopens
  rw [unifyLineEnds_cons (by decide)] at hs
  cases n with
  | zero =>
    rw [List.replicate_zero, List.nil_append] at hs
    exact absurd (by rw [← hs]; rfl) (ht.head_ne (d := '\n') (by decide))
  | succ n =>
    rw [hs]
    exact .cons n ht hpoint

/-- A message's text has the other kept messages below it, or nothing. -/
theorem Spread.isBelow_of_head {texts : List (List Char)} {s : List Char} (h : Spread texts s)
    (hopens : ∀ x ∈ texts, OpensText x) (hs : ∀ c ∈ s.head?, c = '\n') :
    IsBelow (unifyLineEnds s) := by
  cases s with
  | nil => exact .nil
  | cons c s =>
    obtain rfl := hs c rfl
    rw [unifyLineEnds_cons (by decide)]
    exact h.isBelow hopens

end FluentMerge
