import FluentMerge.Document.Expression
import FluentMerge.Proofs.Text.Trimming

/-!
# Progress in expressions

A literal, an operand, an expression, a placeable and a list of arguments are never empty: reading
one takes characters off the front. The first character of an operand is not white
(`inlineExpression_head`), which is why the source of a placeable has something in it however it is
trimmed.
-/

namespace FluentMerge.Read

open Text (isWhite)

variable {s : List Char}

/-- One digit at least is read. -/
theorem digits_shorter {r : Reading Unit s} (h : digits s = .ok r) :
    r.rest.length < s.length := by
  cases s with
  | nil => cases h
  | cons c s =>
    rw [digits] at h
    split at h
    · cases h
      exact Nat.lt_succ_of_le (List.dropWhile_suffix _).length_le
    · cases h

theorem unsignedNumber_shorter {r : Reading Unit s} (h : unsignedNumber s = .ok r) :
    r.rest.length < s.length := by
  obtain ⟨whole, hwhole, h⟩ := bind_eq_ok_iff.1 h
  have hshorter := digits_shorter hwhole
  split at h
  · next t ht =>
    obtain ⟨fraction, -, h⟩ := bind_eq_ok_iff.1 h
    cases h
    have hle := fraction.length_rest_le
    rw [ht, List.length_cons] at hshorter
    rw [Reading.rest_within]
    omega
  · cases h
    exact hshorter

/-- The sign of a number is read as well, so only its digits matter. -/
theorem number_shorter {r : Reading Unit s} (h : number s = .ok r) :
    r.rest.length < s.length := by
  unfold number at h
  split at h
  · obtain ⟨r, -, rfl⟩ := map_eq_ok_iff.1 h
    exact Nat.lt_succ_of_le r.length_rest_le
  · exact unsignedNumber_shorter h

/-- A literal has its closing quote at least. -/
theorem stringLiteral_shorter {r : Reading Unit s} (h : stringLiteral s = .ok r) :
    r.rest.length < s.length := by
  cases s with
  | nil =>
    rw [stringLiteral] at h
    cases h
  | cons c t =>
    rw [stringLiteral] at h
    split at h
    · cases h
      exact Nat.lt_succ_self _
    split at h
    · cases h
    split at h
    · obtain ⟨code, -, h⟩ := bind_eq_ok_iff.1 h
      obtain ⟨literal, -, h⟩ := bind_eq_ok_iff.1 h
      cases h
      exact Nat.lt_succ_of_le (literal.isSuffix.trans code.isSuffix).length_le
    · obtain ⟨literal, -, h⟩ := bind_eq_ok_iff.1 h
      cases h
      exact Nat.lt_succ_of_le literal.length_rest_le

theorem callOrReference_shorter {r : Reading Operand s} (h : callOrReference s = .ok r) :
    r.rest.length < s.length := by
  rw [callOrReference] at h
  obtain ⟨id, hid, h⟩ := bind_eq_ok_iff.1 h
  have hshorter := identifier_shorter hid
  have hle := (skipBlank_suffix id.rest).length_le
  split at h
  · next t ht =>
    obtain ⟨-, -, h⟩ := bind_eq_ok_iff.1 h
    obtain ⟨args, -, h⟩ := bind_eq_ok_iff.1 h
    cases h
    have := args.length_rest_le
    rw [ht, List.length_cons] at hle
    rw [Reading.rest_within, Reading.rest_map]
    omega
  · obtain ⟨access, -, h⟩ := bind_eq_ok_iff.1 h
    cases h
    have := access.length_rest_le
    rw [Reading.rest_within, Reading.rest_map]
    omega

/-- An operand begins with a character that is not white, which is read. -/
theorem inlineExpression_head {r : Reading Operand s} (h : inlineExpression s = .ok r) :
    ∃ c t, s = c :: t ∧ isWhite c = false ∧ r.rest.length ≤ t.length := by
  cases s with
  | nil =>
    rw [inlineExpression] at h
    cases h
  | cons c t =>
    refine ⟨c, t, rfl, ?_⟩
    rw [inlineExpression] at h
    split at h
    · next hc =>
      -- the mark is read, and a placeable, a literal or a name behind it
      obtain ⟨r, -, rfl⟩ := map_eq_ok_iff.1 h
      exact ⟨hc ▸ by decide, r.length_rest_le⟩
    split at h
    · next hc =>
      -- a number begins with a digit or a minus
      obtain ⟨r, hr, rfl⟩ := map_eq_ok_iff.1 h
      refine ⟨?_, Nat.lt_succ_iff.1 (number_shorter hr)⟩
      rw [Bool.or_eq_true, Bool.and_eq_true, beq_iff_eq] at hc
      rcases hc with hdigit | ⟨rfl, -⟩
      · exact Text.isWhite_of_isDigit hdigit
      · decide
    split at h
    · next hc =>
      obtain ⟨r, -, rfl⟩ := map_eq_ok_iff.1 h
      exact ⟨hc ▸ by decide, r.length_rest_le⟩
    split at h
    · next hc =>
      obtain ⟨r, -, rfl⟩ := map_eq_ok_iff.1 h
      exact ⟨hc ▸ by decide, r.length_rest_le⟩
    split at h
    · next hc =>
      obtain ⟨r, -, rfl⟩ := map_eq_ok_iff.1 h
      exact ⟨hc ▸ by decide, r.length_rest_le⟩
    split at h
    · next hc =>
      exact ⟨Text.isWhite_of_isAlpha hc, Nat.lt_succ_iff.1 (callOrReference_shorter h)⟩
    · cases h

theorem inlineExpression_shorter {r : Reading Operand s} (h : inlineExpression s = .ok r) :
    r.rest.length < s.length := by
  obtain ⟨c, t, rfl, -, hle⟩ := inlineExpression_head h
  exact Nat.lt_succ_of_le hle

/-- So does an expression. -/
theorem expression_head {r : Reading Unit s} (h : expression s = .ok r) :
    ∃ c t, s = c :: t ∧ isWhite c = false ∧ r.rest.length ≤ t.length := by
  rw [expression] at h
  obtain ⟨operand, hoperand, h⟩ := bind_eq_ok_iff.1 h
  obtain ⟨c, t, rfl, hc, hle⟩ := inlineExpression_head hoperand
  refine ⟨c, t, rfl, hc, ?_⟩
  have hblank := (skipBlank_suffix operand.rest).length_le
  split at h
  · next u hu =>
    obtain ⟨-, -, h⟩ := bind_eq_ok_iff.1 h
    split at h
    · obtain ⟨cases, -, h⟩ := bind_eq_ok_iff.1 h
      cases h
      have := cases.length_rest_le
      have := (skipBlank_suffix cases.rest).length_le
      simp only [hu, List.length_cons] at hblank ⊢
      omega
    · cases h
  · obtain ⟨-, -, h⟩ := bind_eq_ok_iff.1 h
    cases h
    exact Nat.le_trans hblank hle

/-- The closing brace is read. -/
theorem placeable_shorter {r : Reading Unit s} (h : placeable s = .ok r) :
    r.rest.length < s.length := by
  rw [placeable] at h
  obtain ⟨inside, -, h⟩ := bind_eq_ok_iff.1 h
  obtain ⟨close, hclose, h⟩ := bind_eq_ok_iff.1 h
  cases h
  have hshorter := expect_shorter hclose
  have hle := (inside.isSuffix.trans (skipBlank_suffix s)).length_le
  exact Nat.lt_of_lt_of_le hshorter hle

/-- The closing bracket is read. -/
theorem arguments_shorter {named : List String} {r : Reading Unit s}
    (h : arguments named s = .ok r) : r.rest.length < s.length := by
  have hblank := (skipBlank_suffix s).length_le
  rw [arguments] at h
  split at h
  · next t ht =>
    cases h
    rw [ht] at hblank
    exact hblank
  · obtain ⟨first, -, h⟩ := bind_eq_ok_iff.1 h
    have hfirst := ((skipBlank_suffix first.rest).trans first.isSuffix).length_le
    split at h
    · next t ht =>
      obtain ⟨others, -, h⟩ := bind_eq_ok_iff.1 h
      cases h
      have hle := others.length_rest_le
      rw [ht, List.length_cons] at hfirst
      rw [Reading.rest_within]
      omega
    · obtain ⟨close, hclose, h⟩ := bind_eq_ok_iff.1 h
      cases h
      have hshorter := expect_shorter hclose
      exact Nat.lt_of_lt_of_le hshorter (Nat.le_trans hfirst hblank)

end FluentMerge.Read
