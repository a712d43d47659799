import FluentMerge.Proofs.Catalog.Writing

/-!
# The language of quoted strings

Between the quotes of a string stand pieces: a character other than a quote and a backslash stands
for itself, and a backslash goes with the one character behind it. So a quote closes the string
exactly where the run of backslashes before it is even (`body?_eq_none_iff`).

`unquote_decides` says of every text which of three it is: a quoted string, a string that is left
open, or neither.
-/

namespace FluentMerge.Quoted

open Text (isWhite trim trimStart)

/-! ## Pieces -/

/-- The characters that make an escape behind a backslash, and what the escape stands for. -/
def escapes : List (Char × Char) :=
  [('n', '\n'), ('t', '\t'), ('r', '\r'), ('a', '\x07'), ('b', '\x08'), ('f', '\x0c'),
    ('v', '\x0b'), ('"', '"'), ('\\', '\\')]

/-- A piece of what stands between quotes. -/
inductive Piece where
  | plain (c : Char) (not_quote : c ≠ '"') (not_backslash : c ≠ '\\')
  | escaped (c : Char)

/-- The piece as it is written. -/
def Piece.written : Piece → List Char
  | .plain c _ _ => [c]
  | .escaped c => ['\\', c]

/-- What the piece stands for. A backslash that makes no escape stands for itself. -/
def Piece.meaning : Piece → List Char
  | .plain c _ _ => [c]
  | .escaped c =>
    match escapes.lookup c with
    | some d => [d]
    | none => ['\\', c]

/-- The pieces between two quotes. -/
def quoted (pieces : List Piece) : List Char := '"' :: (pieces.flatMap Piece.written ++ ['"'])

/-- The table of escapes is the one by which they are read. -/
theorem unescape_eq (c : Char) : unescape c = (Piece.escaped c).meaning := by
  unfold unescape
  split
  case h_10 hn ht hr ha hb hf hv hquote hslash =>
    have hnone : escapes.lookup c = none := by
      rw [List.lookup_eq_none_iff]
      simpa [escapes] using ⟨hn, ht, hr, ha, hb, hf, hv, hquote, hslash⟩
    rw [Piece.meaning, hnone]
  all_goals rfl

/-- A piece is read as a whole, and reading goes on behind it. -/
theorem body?_piece (p : Piece) (s : List Char) :
    body? (p.written ++ s) = (body? s).map fun r => (p.meaning ++ r.1, r.2) := by
  cases p with
  | plain c hquote hslash => exact body?_plain hquote hslash s
  | escaped c => rw [← unescape_eq]; exact body?_escaped c s

/-- Pieces are read up to the quote behind them. -/
theorem body?_pieces (pieces : List Piece) (after : List Char) :
    body? (pieces.flatMap Piece.written ++ '"' :: after) =
      some (pieces.flatMap Piece.meaning, after) := by
  induction pieces with
  | nil => exact body?_closed after
  | cons p pieces ih =>
    rw [List.flatMap_cons, List.append_assoc, body?_piece, ih]
    rfl

/-- What is read is made of pieces. -/
theorem exists_pieces_of_body? {s value after : List Char} (h : body? s = some (value, after)) :
    ∃ pieces : List Piece, s = pieces.flatMap Piece.written ++ '"' :: after ∧
      value = pieces.flatMap Piece.meaning := by
  fun_induction body? s generalizing value with
  | case1 => cases h
  | case2 s =>
    cases h
    exact ⟨[], rfl, rfl⟩
  | case3 => cases h
  | case4 d t _ ih =>
    obtain ⟨⟨v, rest⟩, hv, hmap⟩ := Option.map_eq_some_iff.1 h
    cases hmap
    obtain ⟨pieces, rfl, rfl⟩ := ih hv
    exact ⟨.escaped d :: pieces, rfl, by rw [unescape_eq]; rfl⟩
  | case5 c s hquote hslash ih =>
    obtain ⟨⟨v, rest⟩, hv, hmap⟩ := Option.map_eq_some_iff.1 h
    cases hmap
    obtain ⟨pieces, rfl, rfl⟩ := ih hv
    exact ⟨.plain c hquote hslash :: pieces, rfl, rfl⟩

/-! ## Escaped quotes -/

/-- The number of backslashes that a text ends with. -/
def lastBackslashes (s : List Char) : Nat := (s.reverse.takeWhile (· == '\\')).length

/-- Whether what stands behind the text is escaped: the run of backslashes before it is odd. -/
def EscapesNext (before : List Char) : Prop := lastBackslashes before % 2 = 1

instance (before : List Char) : Decidable (EscapesNext before) :=
  inferInstanceAs (Decidable (lastBackslashes before % 2 = 1))

theorem lastBackslashes_of_forall {s : List Char} (h : ∀ c ∈ s, c = '\\') :
    lastBackslashes s = s.length := by
  have hall : s.reverse.takeWhile (· == '\\') = s.reverse := by
    rw [List.takeWhile_eq_self_iff]
    simpa using h
  rw [lastBackslashes, hall, List.length_reverse]

/-- Another character ends the run, whatever stands before it. -/
theorem lastBackslashes_append {s : List Char} (h : ∃ c ∈ s, c ≠ '\\') (t : List Char) :
    lastBackslashes (t ++ s) = lastBackslashes s := by
  have hshort : (s.reverse.takeWhile (· == '\\')).length ≠ s.reverse.length := by
    intro hlength
    obtain ⟨c, hc, hne⟩ := h
    have hself := (List.takeWhile_prefix (l := s.reverse) (· == '\\')).eq_of_length hlength
    exact hne (by simpa using List.takeWhile_eq_self_iff.1 hself c (List.mem_reverse.2 hc))
  rw [lastBackslashes, List.reverse_append, List.takeWhile_append, if_neg hshort, lastBackslashes]

/-- Nor does what stands before another character count. -/
theorem lastBackslashes_cons_of_ne {c : Char} (hc : c ≠ '\\') (s : List Char) :
    lastBackslashes (c :: s) = lastBackslashes s := by
  rw [lastBackslashes, List.reverse_cons, List.takeWhile_append]
  split
  · next hlength =>
    rw [List.takeWhile_cons_of_neg (by simpa using hc), List.append_nil, lastBackslashes, hlength]
  · rfl

/-- A piece is no reason for what stands further on to be escaped. -/
theorem escapesNext_piece (p : Piece) (s : List Char) :
    EscapesNext (p.written ++ s) ↔ EscapesNext s := by
  have hparity : lastBackslashes (p.written ++ s) % 2 = lastBackslashes s % 2 := by
    cases p with
    | plain c hquote hslash => exact congrArg (· % 2) (lastBackslashes_cons_of_ne hslash s)
    | escaped c =>
      by_cases hs : ∀ d ∈ s, d = '\\'
      · by_cases hc : c = '\\'
        · have hall : ∀ d ∈ '\\' :: c :: s, d = '\\' := by simpa [hc] using hs
          rw [Piece.written, List.cons_append, List.singleton_append,
            lastBackslashes_of_forall hall, lastBackslashes_of_forall hs, List.length_cons, List.length_cons]
          omega
        · have hmem : ∃ d ∈ c :: s, d ≠ '\\' := ⟨c, .head _, hc⟩
          exact congrArg (· % 2)
            ((lastBackslashes_append hmem ['\\']).trans (lastBackslashes_cons_of_ne hc s))
      · have hmem : ∃ d ∈ s, d ≠ '\\' := by simpa using hs
        rw [lastBackslashes_append hmem]
  rw [EscapesNext, EscapesNext, hparity]

/-- So the quote behind pieces closes the string. -/
theorem not_escapesNext_pieces (pieces : List Piece) :
    ¬EscapesNext (pieces.flatMap Piece.written) := by
  induction pieces with
  | nil => decide
  | cons p pieces ih => rwa [List.flatMap_cons, escapesNext_piece]

/-- Reading comes to no end exactly where every quote is escaped. -/
theorem body?_eq_none_iff {s : List Char} :
    body? s = none ↔ ∀ before after, s = before ++ '"' :: after → EscapesNext before := by
  constructor
  · intro h before after hs
    fun_induction body? s generalizing before with
    | case1 => simp at hs
    | case2 => cases h
    | case3 =>
      cases before with
      | nil => simp at hs
      | cons c before => simp at hs
    | case4 d t _ ih =>
      cases before with
      | nil => simp at hs
      | cons c before =>
        obtain ⟨rfl, htail⟩ := List.cons.inj hs
        cases before with
        -- the quote is the character behind the backslash
        | nil => decide
        | cons e before =>
          obtain ⟨rfl, hbody⟩ := List.cons.inj htail
          exact (escapesNext_piece (.escaped d) before).2
            (ih (Option.map_eq_none_iff.1 h) before hbody)
    | case5 c s hquote hslash ih =>
      cases before with
      | nil => exact absurd (List.cons.inj hs).1 hquote
      | cons e before =>
        obtain ⟨rfl, hbody⟩ := List.cons.inj hs
        exact (escapesNext_piece (.plain c hquote hslash) before).2
          (ih (Option.map_eq_none_iff.1 h) before hbody)
  · intro h
    rw [Option.eq_none_iff_forall_ne_some]
    rintro ⟨value, after⟩ hbody
    obtain ⟨pieces, hs, -⟩ := exists_pieces_of_body? hbody
    -- where a string is closed the quote stands behind pieces only
    exact not_escapesNext_pieces pieces (h _ _ hs)

/-! ## The three cases -/

/-- Whether a text opens with a quote and has no further one that is not escaped. -/
def LeftOpen (s : List Char) : Prop :=
  ∃ t, s = '"' :: t ∧ ∀ before after, t = before ++ '"' :: after → EscapesNext before

/-- A string is left open where reading it comes to no end. -/
theorem leftOpen_cons_iff {t : List Char} : LeftOpen ('"' :: t) ↔ body? t = none := by
  rw [body?_eq_none_iff]
  constructor
  · rintro ⟨u, hu, hescaped⟩
    obtain ⟨-, rfl⟩ := List.cons.inj hu
    exact hescaped
  · exact fun hescaped => ⟨t, rfl, hescaped⟩

theorem not_leftOpen_quoted (pieces : List Piece) : ¬LeftOpen (quoted pieces) := by
  rw [quoted, leftOpen_cons_iff, body?_pieces]
  exact Option.some_ne_none _

/-- What is left behind a closing quote is not white: the text was trimmed. -/
theorem trim_after_eq_nil_iff {s before after : List Char} (h : trim s = before ++ after) :
    trim after = [] ↔ after = [] := by
  constructor
  · intro hafter
    by_contra hne
    have hlast : isWhite (after.getLast hne) = false := by
      apply Text.getLast?_trimEnd (trimStart s)
      rw [← trim, h, List.getLast?_append, List.getLast?_eq_some_getLast hne]
      rfl
    exact (Text.isSolid_trim (List.getLast_mem hne) hlast).ne_nil hafter
  · rintro rfl
    rfl

theorem unquote_of_head {s : List Char} (h : ∀ t, trim s ≠ '"' :: t) :
    unquote s = .error .expectedString := by
  rw [unquote]
  split
  · rfl
  · next c t hs =>
    rw [if_neg]
    rintro rfl
    exact h t hs

theorem unquote_of_body?_none {s t : List Char} (h : trim s = '"' :: t) (hbody : body? t = none) :
    unquote s = .error .unterminatedString := by
  rw [unquote, h]
  dsimp only
  rw [if_pos rfl, hbody]

/-- Nothing may stand behind the closing quote. -/
theorem unquote_of_body?_some {s t value after : List Char} (h : trim s = '"' :: t)
    (hbody : body? t = some (value, after)) :
    unquote s = if after = [] then .ok (String.ofList value) else .error .expectedString := by
  obtain ⟨pieces, rfl, -⟩ := exists_pieces_of_body? hbody
  have hsplit : trim s = ('"' :: (pieces.flatMap Piece.written ++ ['"'])) ++ after := by
    rw [h]
    simp
  rw [unquote, h]
  dsimp only
  rw [if_pos rfl, hbody]
  simp only [trim_after_eq_nil_iff hsplit]

theorem unquote_of_quoted {s : List Char} {pieces : List Piece} (h : trim s = quoted pieces) :
    unquote s = .ok (String.ofList (pieces.flatMap Piece.meaning)) := by
  rw [unquote_of_body?_some h (body?_pieces pieces []), if_pos rfl]

/-- One of the three holds of every text. What they are is seen from how its body is read. -/
theorem unquote_cases (s : List Char) :
    (∃ pieces, trim s = quoted pieces) ∨
      LeftOpen (trim s) ∧ unquote s = .error .unterminatedString ∨
      (∀ pieces, trim s ≠ quoted pieces) ∧ ¬LeftOpen (trim s) ∧
        unquote s = .error .expectedString := by
  by_cases hs : ∃ t, trim s = '"' :: t
  · obtain ⟨t, ht⟩ := hs
    cases hbody : body? t with
    | none => exact .inr (.inl ⟨ht ▸ leftOpen_cons_iff.2 hbody, unquote_of_body?_none ht hbody⟩)
    | some r =>
      obtain ⟨value, after⟩ := r
      by_cases hafter : after = []
      · subst hafter
        obtain ⟨pieces, rfl, -⟩ := exists_pieces_of_body? hbody
        exact .inl ⟨pieces, ht⟩
      · -- something stands behind the closing quote
        refine .inr (.inr ⟨fun pieces hpieces => ?_, ?_, ?_⟩)
        · obtain ⟨-, rfl⟩ := List.cons.inj (ht.symm.trans hpieces)
          rw [body?_pieces] at hbody
          exact hafter (Prod.ext_iff.1 (Option.some.inj hbody)).2.symm
        · rw [ht, leftOpen_cons_iff, hbody]
          exact Option.some_ne_none _
        · rw [unquote_of_body?_some ht hbody, if_neg hafter]
  · have hne : ∀ t, trim s ≠ '"' :: t := not_exists.1 hs
    exact .inr (.inr ⟨fun _ => hne _, fun ⟨t, ht, _⟩ => hne t ht, unquote_of_head hne⟩)

/-- Every text is a quoted string, or is left open, or is neither, and reading tells which. -/
theorem unquote_decides (s : List Char) :
    (∀ v, unquote s = .ok v ↔
      ∃ pieces, trim s = quoted pieces ∧ v = String.ofList (pieces.flatMap Piece.meaning)) ∧
    (unquote s = .error .unterminatedString ↔ LeftOpen (trim s)) ∧
    (unquote s = .error .expectedString ↔
      (∀ pieces, trim s ≠ quoted pieces) ∧ ¬LeftOpen (trim s)) := by
  obtain ⟨pieces, htrim⟩ | ⟨hopen, hs⟩ | ⟨hquoted, hopen, hs⟩ := unquote_cases s
  · have hs := unquote_of_quoted htrim
    refine ⟨fun v => ⟨fun hv => ⟨pieces, htrim, ?_⟩, ?_⟩, iff_of_false ?_ ?_, iff_of_false ?_ ?_⟩
    · exact Except.ok.inj (hv.symm.trans hs)
    · rintro ⟨others, hothers, rfl⟩
      exact unquote_of_quoted hothers
    · simp [hs]
    · exact htrim ▸ not_leftOpen_quoted pieces
    · simp [hs]
    · exact fun h => h.1 pieces htrim
  · refine ⟨fun v => iff_of_false (by simp [hs]) ?_, iff_of_true hs hopen,
      iff_of_false (by simp [hs]) fun h => h.2 hopen⟩
    rintro ⟨pieces, htrim, -⟩
    exact not_leftOpen_quoted pieces (htrim ▸ hopen)
  · refine ⟨fun v => iff_of_false (by simp [hs]) ?_, iff_of_false (by simp [hs]) hopen,
      iff_of_true hs ⟨hquoted, hopen⟩⟩
    rintro ⟨pieces, htrim, -⟩
    exact hquoted pieces htrim

end FluentMerge.Quoted
