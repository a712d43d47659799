import FluentMerge.Proofs.Document.Progress
import FluentMerge.Proofs.Document.Recursion

/-!
# The cursor

A reader that is given a tail of a text stands at the byte at which the tail begins
(`position`). What is left behind it tells where it stands then: a reader that reads something has
moved on (`MovesOn`), and none ever moves back.

`reading_makesProgress` joins this with the recursion of the readers: each loop and each placeable
in another one is read at a text that is shorter, so reading comes to an end.
-/

namespace FluentMerge.Read

open Text (byteLength)

variable {α : Type} {text s : List Char}

/-- The byte of `text` at which its tail `s` begins. -/
def position (text s : List Char) : Nat := byteLength (consumed text s)

/-- Whether the reader, where it succeeds, leaves the cursor further on and within the text. -/
def MovesOn (read : (s : List Char) → Read α s) : Prop :=
  ∀ text s, s <:+ text → ∀ r, read s = .ok r →
    position text s < position text r.rest ∧ position text r.rest ≤ byteLength text

/-- Whether the reader, where it succeeds, does not leave the cursor further back. -/
def NeverMovesBack (read : (s : List Char) → Read α s) : Prop :=
  ∀ text s, s <:+ text → ∀ r, read s = .ok r →
    position text s ≤ position text r.rest ∧ position text r.rest ≤ byteLength text

/-- A tail of a tail begins as many bytes further on as stand in front of it there. -/
theorem position_suffix {rest : List Char} (hs : s <:+ text) (hrest : rest <:+ s) :
    position text rest = position text s + byteLength (consumed s rest) ∧
      position text rest ≤ byteLength text := by
  obtain ⟨w, rfl⟩ := hs
  obtain ⟨v, rfl⟩ := hrest
  have hrest : position (w ++ (v ++ rest)) rest = byteLength w + byteLength v := by
    rw [position, consumed_eq (List.append_assoc w v rest).symm, Text.byteLength_append]
  have hs : position (w ++ (v ++ rest)) (v ++ rest) = byteLength w := by
    rw [position, consumed_eq rfl]
  rw [hrest, hs, consumed_eq rfl, Text.byteLength_append, Text.byteLength_append]
  omega

/-- A shorter rest begins further on in the text. Every character has a byte at least. -/
theorem position_lt {rest : List Char} (hs : s <:+ text) (hrest : rest <:+ s)
    (hshorter : rest.length < s.length) :
    position text s < position text rest ∧ position text rest ≤ byteLength text := by
  obtain ⟨hposition, hle⟩ := position_suffix hs hrest
  have hne : consumed s rest ≠ [] := by
    intro hnil
    have happend := consumed_append hrest
    rw [hnil, List.nil_append] at happend
    exact Nat.lt_irrefl _ (happend ▸ hshorter)
  have hpos := byteLength_pos hne
  omega

theorem movesOn_of_shorter {read : (s : List Char) → Read α s}
    (h : ∀ {s} {r : Reading α s}, read s = .ok r → r.rest.length < s.length) : MovesOn read :=
  fun _ _ hs r hr => position_lt hs r.isSuffix (h hr)

/-- What is left is always a suffix of the text, whatever was read. -/
theorem neverMovesBack (read : (s : List Char) → Read α s) : NeverMovesBack read := by
  intro text s hs r _
  obtain ⟨hposition, hle⟩ := position_suffix hs r.isSuffix
  omega

theorem term_shorter {r : Reading Term s} (h : term s = .ok r) : r.rest.length < s.length := by
  obtain ⟨head, hhead, h⟩ := bind_eq_ok_iff.1 h
  have hshorter := definition_shorter hhead
  split at h
  · cases h
  · obtain ⟨tail, -, h⟩ := bind_eq_ok_iff.1 h
    cases h
    exact Nat.lt_of_le_of_lt tail.length_rest_le hshorter

/-- Before the end of the text there is an entry or junk, and the cursor moves on behind it. -/
theorem position_nextEntry (start : Nat) (hs : s <:+ text) (hne : s ≠ []) :
    position text s < position text (nextEntry start s).2 ∧
      position text (nextEntry start s).2 ≤ byteLength text := by
  obtain ⟨c, t, rfl⟩ := List.exists_cons_of_ne_nil hne
  exact position_lt hs (nextEntry_suffix start c t) (nextEntry_shorter start c t)

/-- The readers of what is not empty move on, those of what may be empty do not move back, an entry
or junk is behind the cursor after each round before the end of the text, and the recursion goes
down with the text that is left. A term, a placeable, arguments and a string are read from behind
the mark that opens them, so they move on even from there. -/
theorem reading_makesProgress :
    (MovesOn entry ∧ MovesOn comment ∧ MovesOn message ∧ MovesOn term ∧ MovesOn identifier ∧
      MovesOn placeable ∧ MovesOn inlineExpression ∧ (∀ named, MovesOn (arguments named)) ∧
      MovesOn number ∧ MovesOn stringLiteral) ∧
    (NeverMovesBack pattern? ∧ NeverMovesBack attributes ∧
      (∀ seen, NeverMovesBack (variants seen)) ∧ NeverMovesBack expression) ∧
    (∀ text s start, s <:+ text → s ≠ [] →
      position text s < position text (nextEntry start s).2 ∧
        position text (nextEntry start s).2 ≤ byteLength text) ∧
    ∀ {α : Type} (c : Call α), c.rank ≤ 8 * c.text.length + 7 ∧
      (∀ ask : {β : Type} → Call β → β, Call.AnswersBelow ask c.rank → c.body ask = c.run) ∧
      ∀ (base : {β : Type} → Call β → β) n, c.rank < n → Call.answer base n c = c.run := by
  refine ⟨⟨movesOn_of_shorter entry_shorter, movesOn_of_shorter comment_shorter,
    movesOn_of_shorter message_shorter, movesOn_of_shorter term_shorter,
    movesOn_of_shorter identifier_shorter, movesOn_of_shorter placeable_shorter,
    movesOn_of_shorter inlineExpression_shorter, fun named => movesOn_of_shorter arguments_shorter,
    movesOn_of_shorter number_shorter, movesOn_of_shorter stringLiteral_shorter⟩,
    ⟨neverMovesBack _, neverMovesBack _, fun seen => neverMovesBack _, neverMovesBack _⟩,
    fun text s start hs hne => position_nextEntry start hs hne, fun c => ?_⟩
  -- the recursion: a body asks for calls of lower rank only, so answers of that depth are enough
  exact ⟨c.rank_le, fun ask => Call.body_eq_run, fun base n => Call.answer_eq_run base⟩

end FluentMerge.Read
