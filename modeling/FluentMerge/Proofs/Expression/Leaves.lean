import FluentMerge.Proofs.Document.Locality
import FluentMerge.Proofs.Expression.Tree

/-!
# Reading the leaves of an expression

Names, numbers, string literals and keys are solid text, and they are read back from it, whatever
stands behind them that cannot go on with them (`Stops`).
-/

namespace FluentMerge

open Read
open Text (IsSolid isWhite takeWhile_of_head dropWhile_of_head)

/-! ## Names -/

/-- No character of a name is white space. -/
theorem isWhite_of_isNameChar {c : Char} (h : isNameChar c = true) : isWhite c = false := by
  simp only [isNameChar, Char.isAlphanum, Bool.or_eq_true, beq_iff_eq] at h
  rcases h with ((h | h) | rfl) | rfl
  · exact Text.isWhite_of_isAlpha h
  · exact Text.isWhite_of_isDigit h
  · decide
  · decide

theorem isNameChar_of_isAlpha {c : Char} (h : c.isAlpha = true) : isNameChar c = true := by
  simp [isNameChar, Char.isAlphanum, h]

theorem isNameChar_of_isDigit {c : Char} (h : c.isDigit = true) : isNameChar c = true := by
  simp [isNameChar, Char.isAlphanum, h]

/-- The characters that a name may have are small letters or may be in the name of a function. -/
theorem capital_iff {c : Char} (h : isNameChar c = true) :
    (c.isUpper || c.isDigit || c == '_' || c == '-') = true ↔ c.isLower = false := by
  rw [← Bool.not_eq_true]
  rw [isNameChar, Char.isAlphanum] at h
  delta Char.isAlpha at h
  delta Char.isUpper Char.isLower at h ⊢
  simp only [Char.isDigit, Bool.or_eq_true, Bool.and_eq_true, decide_eq_true_eq, beq_iff_eq,
    UInt32.le_iff_toNat_le, ge_iff_le, Char.ext_iff, ← UInt32.toNat_inj] at h ⊢
  simp only [UInt32.reduceToNat, Char.reduceVal] at h ⊢
  omega

namespace Name

variable (id : Name)

/-- A name begins with a letter and goes on with characters of names. -/
theorem exists_cons : ∃ c t, id.text.toList = c :: t ∧ c.isAlpha = true ∧
    ∀ d ∈ t, isNameChar d = true :=
  id.isName

theorem isNameChar_of_mem {c : Char} (h : c ∈ id.text.toList) : isNameChar c = true := by
  obtain ⟨d, t, hid, hd, ht⟩ := id.exists_cons
  rw [hid] at h
  rcases List.mem_cons.1 h with rfl | h
  · exact isNameChar_of_isAlpha hd
  · exact ht c h

theorem isWhite_of_mem {c : Char} (h : c ∈ id.text.toList) : isWhite c = false :=
  isWhite_of_isNameChar (id.isNameChar_of_mem h)

/-- A name is solid. -/
theorem isSolid : IsSolid id.text.toList := by
  obtain ⟨c, t, hid, -, -⟩ := id.exists_cons
  exact .of_forall (by simp [hid]) fun d hd => id.isWhite_of_mem hd

/-- A name is read up to what cannot be in it. -/
theorem reads {rest : List Char} (h : ∀ c ∈ rest.head?, isNameChar c = false) :
    outcome (identifier (id.text.toList ++ rest)) = .ok (id.text, rest) := by
  obtain ⟨c, t, hid, hc, ht⟩ := id.exists_cons
  rw [hid, List.cons_append, outcome_identifier, if_pos hc, List.takeWhile_append_of_pos ht,
    List.dropWhile_append_of_pos ht, takeWhile_of_head h, dropWhile_of_head h, List.append_nil,
    ← hid, String.ofList_toList]

/-- A function may have the names that have no small letter. -/
theorem isFunctionName_iff : isFunctionName id.text = true ↔ id.IsUpperCase := by
  obtain ⟨c, t, hid, hc, -⟩ := id.exists_cons
  rw [isFunctionName, Bool.and_eq_true, List.all_eq_true, IsUpperCase]
  constructor
  · rintro ⟨hall, -⟩ d hd
    exact (capital_iff (id.isNameChar_of_mem hd)).1 (hall d hd)
  · intro h
    refine ⟨fun d hd => (capital_iff (id.isNameChar_of_mem hd)).2 (h d hd), ?_⟩
    have hlower : c.isLower = false := h c (by simp [hid])
    delta Char.isAlpha at hc
    rw [hlower, Bool.or_false] at hc
    rw [hid]
    exact hc

end Name

/-! ## Numbers -/

/-- Digits are read up to a character that is none. -/
theorem Digits.reads (ds : Digits) {rest : List Char} (h : ∀ c ∈ rest.head?, c.isDigit = false) :
    outcome (digits (ds.chars ++ rest)) = .ok ((), rest) := by
  obtain ⟨chars, hne, hdigits⟩ := ds
  cases chars with
  | nil => exact absurd rfl hne
  | cons c t =>
    rw [List.forall_mem_cons] at hdigits
    rw [List.cons_append, outcome_digits, if_pos hdigits.1,
      List.dropWhile_append_of_pos hdigits.2, dropWhile_of_head h]

theorem ne_of_isDigit {c d : Char} (h : c.isDigit = true) (hd : d.isDigit = false) : c ≠ d := by
  rintro rfl
  rw [h] at hd
  cases hd

theorem Digits.exists_cons (ds : Digits) : ∃ c t, ds.chars = c :: t ∧ c.isDigit = true := by
  cases h : ds.chars with
  | nil => exact absurd h ds.ne_nil
  | cons c t => exact ⟨c, t, rfl, ds.isDigit c (by simp [h])⟩

/-- What may stand behind an expression: nothing that goes on with a name or a number, and no
bracket that would make a call of it. -/
structure Stops (rest : List Char) : Prop where
  name : ∀ c ∈ rest.head?, isNameChar c = false
  point : rest.head? ≠ some '.'
  bracket : (skipBlank rest).head? ≠ some '('

/-- What stops a number is no digit. -/
theorem Stops.digit {rest : List Char} (h : Stops rest) : ∀ c ∈ rest.head?, c.isDigit = false := by
  intro c hc
  rw [← Bool.not_eq_true]
  intro hdigit
  have := isNameChar_of_isDigit hdigit
  rw [h.name c hc] at this
  cases this

/-- Marks of expressions stop a number and a name. -/
theorem stops_cons (c : Char) (hc : c ∈ [')', ']', ',', ':']) (rest : List Char) :
    Stops (c :: rest) := by
  have h : isNameChar c = false ∧ c ≠ '.' ∧ c ≠ ' ' ∧ c ≠ '\n' ∧ c ≠ '(' := by
    simp only [List.mem_cons, List.not_mem_nil, or_false] at hc
    rcases hc with rfl | rfl | rfl | rfl <;> decide
  obtain ⟨hname, hpoint, hspace, hline, hbracket⟩ := h
  refine ⟨by simpa using hname, by simpa using hpoint, ?_⟩
  simpa [skipBlank, hspace, hline] using hbracket

/-- So does a space in front of a character that is neither blank nor the bracket of a call. -/
theorem stops_space (c : Char) (hc : c ≠ ' ' ∧ c ≠ '\n' ∧ c ≠ '(') (rest : List Char) :
    Stops (' ' :: c :: rest) := by
  obtain ⟨hspace, hline, hbracket⟩ := hc
  refine ⟨by simp [isNameChar], by simp, ?_⟩
  simpa [skipBlank, hspace, hline] using hbracket

namespace NumberLiteral

variable (n : NumberLiteral)

/-- A number is read with its fraction, if it has one. Behind one without it no point may stand, and
none stops a number. -/
theorem unsignedNumber_reads (whole : Digits) (fraction : Option Digits) {rest : List Char}
    (h : Stops rest) :
    outcome (unsignedNumber (whole.chars ++
      ((fraction.elim [] fun digits => '.' :: digits.chars) ++ rest))) = .ok ((), rest) := by
  rw [outcome_unsignedNumber]
  cases fraction with
  | none =>
    rw [Option.elim_none, List.nil_append, whole.reads h.digit]
    simp only [bind, Except.bind]
    split
    · exact absurd rfl h.point
    · rfl
  | some digits =>
    rw [Option.elim_some, List.cons_append, whole.reads (by simp)]
    exact digits.reads h.digit

/-- A number is read up to what cannot be in it. -/
theorem reads {rest : List Char} (h : Stops rest) :
    outcome (number (n.print ++ rest)) = .ok ((), rest) := by
  obtain ⟨isNegative, whole, fraction⟩ := n
  have hread := unsignedNumber_reads whole fraction h
  rw [print, List.append_assoc, List.append_assoc]
  cases isNegative with
  | true => exact (outcome_number_minus _).trans hread
  | false =>
    obtain ⟨c, t, hwhole, hc⟩ := whole.exists_cons
    have hminus : c ≠ '-' := ne_of_isDigit hc (by decide)
    rw [if_neg Bool.false_ne_true, List.nil_append, number_of_head (by simpa [hwhole] using hminus)]
    exact hread

/-- What a number begins with: a digit, or a minus sign and a digit. -/
theorem print_cases : (∃ c t, n.print = c :: t ∧ c.isDigit = true) ∨
    ∃ c t, n.print = '-' :: c :: t ∧ c.isDigit = true := by
  obtain ⟨isNegative, whole, fraction⟩ := n
  obtain ⟨c, t, hwhole, hc⟩ := whole.exists_cons
  rw [print, hwhole]
  cases isNegative with
  | true => exact .inr ⟨c, _, rfl, hc⟩
  | false => exact .inl ⟨c, _, rfl, hc⟩

theorem isWhite_of_mem {c : Char} (h : c ∈ n.print) : isWhite c = false := by
  have hdigits (ds : Digits) (h : c ∈ ds.chars) : isWhite c = false :=
    Text.isWhite_of_isDigit (ds.isDigit c h)
  obtain ⟨isNegative, whole, fraction⟩ := n
  rw [print, List.mem_append, List.mem_append] at h
  rcases h with h | h | h
  · obtain rfl : c = '-' := by
      cases isNegative with
      | true => simpa using h
      | false => cases h
    decide
  · exact hdigits whole h
  · cases fraction with
    | none => cases h
    | some digits =>
      rw [Option.elim_some, List.mem_cons] at h
      rcases h with rfl | h
      · decide
      · exact hdigits digits h

theorem isSolid : IsSolid n.print := by
  refine .of_forall ?_ fun c hc => n.isWhite_of_mem hc
  rcases n.print_cases with ⟨c, t, h, -⟩ | ⟨c, t, h, -⟩ <;> simp [h]

end NumberLiteral

/-! ## String literals -/

/-- A code is read digit by digit. It has as many as its reader asks for, so it needs no end. -/
theorem HexCode.reads {n : Nat} (code : HexCode n) (rest : List Char) :
    outcome (hexDigits n (code.chars ++ rest)) = .ok ((), rest) := by
  obtain ⟨chars, hlength, hhex⟩ := code
  induction chars generalizing n with
  | nil =>
    subst hlength
    rfl
  | cons c chars ih =>
    subst hlength
    rw [List.forall_mem_cons] at hhex
    rw [List.cons_append, List.length_cons, outcome_hexDigits_succ, if_pos hhex.1]
    exact ih rfl hhex.2

/-- A piece of a string literal is read before what follows it. -/
theorem StringPiece.reads (piece : StringPiece) (rest : List Char) :
    outcome (stringLiteral (piece.print ++ rest)) = outcome (stringLiteral rest) := by
  have hescape {code : List Char} (h : outcome (escape (code ++ rest)) = .ok ((), rest)) :
      outcome (stringLiteral ('\\' :: (code ++ rest))) = outcome (stringLiteral rest) := by
    rw [outcome_stringLiteral, if_neg (by decide), if_neg (by decide), if_pos rfl, h]
    rfl
  cases piece with
  | char c quote backslash lineEnd =>
    rw [print, List.cons_append, outcome_stringLiteral, if_neg quote, if_neg lineEnd,
      if_neg backslash, List.nil_append]
  | backslash => exact @hescape ['\\'] rfl
  | quote => exact @hescape ['"'] rfl
  | shortCode code =>
    refine @hescape ('u' :: code.chars) ?_
    rw [List.cons_append, outcome_escape, if_neg (by decide), if_pos rfl]
    exact code.reads rest
  | longCode code =>
    refine @hescape ('U' :: code.chars) ?_
    rw [List.cons_append, outcome_escape, if_neg (by decide), if_neg (by decide), if_pos rfl]
    exact code.reads rest

/-- A string literal is read up to and with its closing quote. -/
theorem stringLiteral_reads (pieces : List StringPiece) (rest : List Char) :
    outcome (stringLiteral (pieces.flatMap StringPiece.print ++ '"' :: rest)) =
      .ok ((), rest) := by
  induction pieces with
  | nil => rw [List.flatMap_nil, List.nil_append, outcome_stringLiteral, if_pos rfl]
  | cons piece pieces ih =>
    rw [List.flatMap_cons, List.append_assoc, piece.reads]
    exact ih

/-! ## Accesses and keys -/

/-- An attribute is asked for exactly if one is written. -/
theorem attributeAccessor_reads (access : Option Name) {rest : List Char}
    (hname : ∀ c ∈ rest.head?, isNameChar c = false) (hpoint : rest.head? ≠ some '.') :
    outcome (attributeAccessor (printAccess access ++ rest)) = .ok (access.isSome, rest) := by
  cases access with
  | none => exact outcome_attributeAccessor_of_head hpoint
  | some id =>
    rw [printAccess, Option.elim_some, List.cons_append, outcome_attributeAccessor_point,
      id.reads hname]
    rfl

/-- Behind a name an attribute does not go on with it. -/
theorem printAccess_head (access : Option Name) {rest : List Char}
    (h : ∀ c ∈ rest.head?, isNameChar c = false) :
    ∀ c ∈ (printAccess access ++ rest).head?, isNameChar c = false := by
  cases access with
  | none => exact h
  | some id => simp [printAccess, isNameChar]

theorem VariantKey.isSolid (key : VariantKey) : IsSolid key.print := by
  cases key with
  | number n => exact n.isSolid
  | name id => exact id.isSolid

/-- A key is a number or a name, told apart by its first character. -/
theorem VariantKey.reads (key : VariantKey) {rest : List Char} (h : Stops rest) :
    outcome (variantKey (key.print ++ rest)) = .ok ((), rest) := by
  cases key with
  | number n =>
    have hread := n.reads h
    rw [print]
    rcases n.print_cases with ⟨c, t, hn, hc⟩ | ⟨c, t, hn, hc⟩
    · rw [hn, List.cons_append] at hread ⊢
      rw [outcome_variantKey, if_pos (by simp [hc])]
      exact hread
    · rw [hn, List.cons_append] at hread ⊢
      rw [outcome_variantKey, if_pos (by simp)]
      exact hread
  | name id =>
    have hread := id.reads h.name
    obtain ⟨c, t, hid, hc, -⟩ := id.exists_cons
    have hminus : c ≠ '-' := ne_of_isAlpha hc (by decide)
    rw [print]
    rw [hid, List.cons_append] at hread ⊢
    rw [outcome_variantKey, if_neg (by simp [isDigit_of_isAlpha hc, hminus]), hread]
    rfl

end FluentMerge
