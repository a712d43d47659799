import FluentMerge.Proofs.Document.Composition
import FluentMerge.Proofs.Expression.Reading

/-!
# Messages with a placeable

A message whose value is a placeable is read as that message exactly if the expression in the
placeable obeys the rules. Otherwise its whole text is junk.
-/

namespace FluentMerge

open Read
open Text (byteLength)

/-! ## The message of an expression -/

namespace Expression

variable (w : Indents) (id : Name) (e : Expression)

/-- The line of a message whose value is the placeable of an expression, without its end. A select
expression goes on in lines below. -/
def messageLine : List Char :=
  id.text.toList ++ ' ' :: '=' :: ' ' :: '{' :: ' ' :: (e.print w 0 ++ e.closing w 0)

/-- The text of a message whose value is the placeable of an expression. -/
def messageText : String := String.ofList (e.messageLine w id ++ ['\n'])

/-- The message that `messageText` is the text of. -/
def message : Message where
  id := id.text
  value := some ⟨[.placeable (String.ofList (e.print w 0))]⟩
  attributes := []
  comment := none
  span := some ⟨0, byteLength (e.messageLine w id)⟩

/-- The line begins with the first letter of the message's name. -/
theorem messageText_eq_cons :
    ∃ c t, c.isAlpha = true ∧ e.messageLine w id ++ ['\n'] = c :: t := by
  obtain ⟨c, t, hid, hc, -⟩ := id.exists_cons
  exact ⟨c, _, hc, by rw [messageLine, hid]; rfl⟩

/-- The source of a placeable is the written expression: the blanks around it are trimmed. -/
theorem placeableSource_eq :
    placeableSource (' ' :: (e.print w 0 ++ e.closing w 0)) = e.print w 0 := by
  obtain ⟨blank, hblank, hclosing⟩ := e.closing_eq w 0
  have hdrop : (' ' :: (e.print w 0 ++ e.closing w 0)).dropLast =
      [' '] ++ (e.print w 0 ++ blank) := by
    rw [hclosing, ← List.append_assoc, ← List.cons_append, List.dropLast_concat]
    rfl
  rw [placeableSource, hdrop]
  refine Text.trim_of_isSolid (e.isSolid w 0) (List.forall_mem_singleton.2 rfl) ?_
  intro c hc
  rcases hblank c hc with rfl | rfl <;> decide

theorem value_decides :
    Decides e.Obeys ((e.message w id).value, ['\n']) (outcome (pattern?
      (' ' :: '{' :: ' ' :: (e.print w 0 ++ (e.closing w 0 ++ ['\n']))))) := by
  have hinside := e.placeable_decides w 0 (e.decides w 0 ['\n'])
  have htail : outcome (patternParts ['\n']) = .ok ([], ['\n']) :=
    patternParts_of_tail (IsBelow.isTail (.cons 0 .nothing (by simp)))
  have hsource : placeableSource
      (consumed (' ' :: (e.print w 0 ++ (e.closing w 0 ++ ['\n']))) ['\n']) = e.print w 0 := by
    rw [consumed_eq (w := ' ' :: (e.print w 0 ++ e.closing w 0)) (by simp),
      e.placeableSource_eq w]
  have hspaces : skipSpaces (' ' :: '{' :: ' ' :: (e.print w 0 ++ (e.closing w 0 ++ ['\n']))) =
      '{' :: ' ' :: (e.print w 0 ++ (e.closing w 0 ++ ['\n'])) := rfl
  have hparts : Decides e.Obeys ([.placeable (e.print w 0)], ['\n']) (outcome (patternParts
      ('{' :: ' ' :: (e.print w 0 ++ (e.closing w 0 ++ ['\n']))))) := by
    rw [outcome_patternParts, if_neg (by decide), if_pos rfl, ← and_true e.Obeys]
    refine hinside.bind ?_
    rw [hsource, htail]
    exact .of_eq rfl
  rw [outcome_pattern?, hspaces, if_pos (by simp)]
  exact hparts.map fun p => (some (Pattern.ofParts p.1), p.2)

/-- The message is read before the end of its last line. -/
theorem entry_decides :
    Decides e.Obeys (.message { e.message w id with span := none }, ['\n'])
      (outcome (entry (e.messageLine w id ++ ['\n']))) := by
  have hvalue := e.value_decides w id
  have htext : e.messageLine w id ++ ['\n'] = id.text.toList ++ ' ' :: '=' :: ' ' :: '{' :: ' ' ::
      (e.print w 0 ++ (e.closing w 0 ++ ['\n'])) := by
    simp [messageLine]
  have hdefinition : Decides e.Obeys ((id.text, (e.message w id).value), ['\n'])
      (outcome (definition (e.messageLine w id ++ ['\n']))) := by
    rw [htext, outcome_definition, id.reads (by simp [isNameChar])]
    exact hvalue.map fun p => ((id.text, p.1), p.2)
  -- only a line end is left, so there is no attribute
  have hattributes : outcome (attributes ['\n']) = .ok ([], ['\n']) := by
    rw [outcome_attributes]
    rfl
  have hmessage : Decides e.Obeys ({ e.message w id with span := none }, ['\n'])
      (outcome (Read.message (e.messageLine w id ++ ['\n']))) := by
    rw [outcome_message, ← and_true e.Obeys]
    refine hdefinition.bind ?_
    rw [hattributes]
    exact .of_eq rfl
  -- the name begins with a letter, so what is read is a message
  obtain ⟨c, t, hc, hcons⟩ := e.messageText_eq_cons w id
  rw [hcons] at hmessage ⊢
  rw [outcome_entry, if_neg (ne_of_isAlpha hc (by decide)), if_neg (ne_of_isAlpha hc (by decide)),
    if_pos hc]
  exact hmessage.map fun p => (Entry.message p.1, p.2)

theorem isPassed_messageLine : IsPassed (e.messageLine w id) := by
  have hequals : IsPassed [' ', '=', ' '] := isPassed_of_not_mem (by decide)
  exact id.isPassed.append (hequals.append (isPassed_braces w (e.isPassed w 0)))

end Expression

/-! ## The document of an expression -/

/-- Junk is known but for its reasons when it is known without them. -/
theorem exists_reasons_of_unannotated {e : Entry} {content : String} {span : Option Span}
    (h : e.unannotated = .junk ⟨content, [], span⟩) :
    ∃ reasons, e = .junk ⟨content, reasons, span⟩ := by
  cases e with
  | junk j =>
    simp only [Entry.unannotated, Entry.junk.injEq, Junk.mk.injEq, true_and] at h
    exact ⟨j.annotations, by rw [← h.1, ← h.2]⟩
  | _ => cases h

section MessageText

variable (w : Indents) (id : Name) {e : Expression}

theorem parse_messageText_of_obeys (h : e.Obeys) :
    (Document.parse (e.messageText w id)).entries = [.message (e.message w id)] := by
  have hentry := (e.entry_decides w id).eq_ok h
  have hnext := nextEntry_of_entry hentry (by simp) 0
  rw [consumed_eq (w := e.messageLine w id) rfl, Nat.zero_add] at hnext
  obtain ⟨c, t, hc, htext⟩ := e.messageText_eq_cons w id
  rw [Expression.messageText, htext]
  rw [htext] at hnext
  exact parse_of_nextEntry hc hnext (skipBlankLines_eq_nil (by simp [IsBlank])) (by rintro level ⟨⟩)

theorem parse_messageText_of_not_obeys (h : ¬e.Obeys) :
    ∃ reasons, (Document.parse (e.messageText w id)).entries =
      [.junk ⟨e.messageText w id, reasons, some ⟨0, byteLength (e.messageLine w id) + 1⟩⟩] := by
  obtain ⟨fault, hentry⟩ := (e.entry_decides w id).eq_error h
  have hline : outcome (entryLine (e.messageLine w id ++ ['\n'])) = .error fault := by
    rw [outcome_entryLine, hentry]
    rfl
  have hafter : afterJunk (e.messageLine w id ++ ['\n']) = [] := e.isPassed_messageLine w id ['\n']
  obtain ⟨hjunk, hrest⟩ := nextEntry_of_fault hline 0
  rw [hafter] at hjunk hrest
  rw [junkBefore, consumed_eq (w := e.messageLine w id ++ ['\n']) (by simp), Nat.zero_add,
    Text.byteLength_append] at hjunk
  obtain ⟨reasons, hnext⟩ := exists_reasons_of_unannotated hjunk
  obtain ⟨c, t, hc, htext⟩ := e.messageText_eq_cons w id
  refine ⟨reasons, ?_⟩
  rw [Expression.messageText]
  rw [htext] at hnext hrest ⊢
  exact parse_of_nextEntry hc (Prod.ext hnext hrest) (skipBlankLines_eq_nil isBlank_nil)
    (by rintro level ⟨⟩)

/-- A message with a placeable is read exactly if the expression in it obeys the rules, and its
whole text is junk exactly if not. -/
theorem parse_messageText (e : Expression) :
    ((Document.parse (e.messageText w id)).entries = [.message (e.message w id)] ↔ e.Obeys) ∧
      ((∃ reasons, (Document.parse (e.messageText w id)).entries =
        [.junk ⟨e.messageText w id, reasons, some ⟨0, byteLength (e.messageLine w id) + 1⟩⟩]) ↔
          ¬e.Obeys) := by
  by_cases hobeys : e.Obeys
  · rw [parse_messageText_of_obeys w id hobeys]
    simp [hobeys]
  · have hjunk := parse_messageText_of_not_obeys w id hobeys
    refine ⟨?_, iff_of_true hjunk hobeys⟩
    obtain ⟨reasons, hjunk⟩ := hjunk
    rw [hjunk]
    simp [hobeys]

end MessageText

end FluentMerge
