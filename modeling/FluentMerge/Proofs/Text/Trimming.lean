import FluentMerge.Text.Blank
import Mathlib.Data.List.TakeWhile

/-!
# Trimmed text

What trimming leaves alone: digits, text that is trimmed at both its ends, and whatever stands
before a text that is trimmed at its end. A text with something in it that trimming leaves alone is
solid (`IsSolid`), and trimming finds it between white text (`trim_of_isSolid`).
-/

namespace FluentMerge.Text

/-! ## Runs of characters -/

section Runs

variable {p : Char → Bool} {rest : List Char}

/-- A run that the first character does not belong to is empty. -/
theorem takeWhile_of_head (h : ∀ c ∈ rest.head?, p c = false) : rest.takeWhile p = [] := by
  cases rest with
  | nil => rfl
  | cons c rest => rw [List.takeWhile_cons_of_neg (by simp [h c rfl])]

theorem dropWhile_of_head (h : ∀ c ∈ rest.head?, p c = false) : rest.dropWhile p = rest := by
  cases rest with
  | nil => rfl
  | cons c rest => rw [List.dropWhile_cons_of_neg (by simp [h c rfl])]

/-- A line has no line end in it. -/
theorem not_mem_takeWhile_ne (s : List Char) : '\n' ∉ s.takeWhile (· != '\n') := by
  intro hmem
  simpa using List.mem_takeWhile_imp hmem

end Runs

/-! ## White space -/

/-- No character of ASCII that can be seen is white. -/
theorem isWhite_of_bounds {c : Char} (h : 33 ≤ c.toNat ∧ c.toNat ≤ 126) : isWhite c = false := by
  rw [← Bool.not_eq_true]
  intro hwhite
  simp only [isWhite, Char.le_def, UInt32.le_iff_toNat_le, Char.ext_iff, ← UInt32.toNat_inj,
    Bool.or_eq_true, Bool.and_eq_true, decide_eq_true_eq, beq_iff_eq] at hwhite
  simp at hwhite
  omega

/-- Digits are not white space. -/
theorem isWhite_of_isDigit {c : Char} (h : c.isDigit = true) : isWhite c = false := by
  have hbounds : 48 ≤ c.toNat ∧ c.toNat ≤ 57 := by
    simpa [Char.isDigit, UInt32.le_iff_toNat_le] using h
  exact isWhite_of_bounds (by omega)

theorem isWhite_of_isAlpha {c : Char} (h : c.isAlpha = true) : isWhite c = false := by
  have hbounds : 65 ≤ c.toNat ∧ c.toNat ≤ 90 ∨ 97 ≤ c.toNat ∧ c.toNat ≤ 122 := by
    delta Char.isAlpha Char.isUpper Char.isLower at h
    simpa [UInt32.le_iff_toNat_le] using h
  exact isWhite_of_bounds (by omega)

/-- Text that trimming leaves alone has no white space in front. -/
theorem trimStart_of_trim_eq_self {s : List Char} (h : trim s = s) : trimStart s = s := by
  have hlength : (trim s).length ≤ (trimStart s).length := by
    rw [trim, trimEnd, List.length_reverse, ← @List.length_reverse _ (trimStart s)]
    exact (List.dropWhile_suffix _).length_le
  rw [h] at hlength
  exact (List.dropWhile_suffix _).eq_of_length_le hlength

/-- Nor has it any at its end. -/
theorem trimEnd_of_trim_eq_self {s : List Char} (h : trim s = s) : trimEnd s = s := by
  rwa [trim, trimStart_of_trim_eq_self h] at h

/-- A character that is not white keeps its place when the end is trimmed. -/
theorem trimEnd_cons_of_not {c : Char} (hc : isWhite c = false) (s : List Char) :
    trimEnd (c :: s) = c :: trimEnd s := by
  rw [trimEnd, trimEnd, List.reverse_cons, List.dropWhile_append]
  split
  · next h =>
    rw [List.isEmpty_iff.1 h, List.dropWhile_cons_of_neg (by simp [hc])]
    rfl
  · rw [List.reverse_append]
    rfl

/-- Text that ends with no white space keeps what is before it. -/
theorem trimEnd_append {s t : List Char} (ht : trimEnd t = t) (hne : t ≠ []) :
    trimEnd (s ++ t) = s ++ t := by
  have hlast : isWhite (t.getLast hne) = false := by
    apply getLast?_trimEnd t
    rw [ht, List.getLast?_eq_some_getLast hne]
    rfl
  rw [← List.dropLast_concat_getLast hne, ← List.append_assoc]
  exact trimEnd_concat_of_not hlast

/-- White space at the end of a text does not count. -/
theorem trim_concat_of_isWhite {c : Char} (hc : isWhite c = true) (s : List Char) :
    trim (s ++ [c]) = trim s := by
  unfold trim trimStart
  rw [List.dropWhile_append]
  split
  · next hs =>
    rw [List.isEmpty_iff.1 hs, List.dropWhile_cons_of_pos hc]
    rfl
  · rw [trimEnd, List.reverse_concat, List.dropWhile_cons_of_pos hc]
    rfl

/-! ## Solid text -/

/-- Whether a text has something in it and no white space at either end. -/
structure IsSolid (s : List Char) : Prop where
  ne_nil : s ≠ []
  head : ∀ c ∈ s.head?, isWhite c = false
  last : ∀ c ∈ s.getLast?, isWhite c = false

namespace IsSolid

variable {s t : List Char}

/-- Text with no white space in it is solid. -/
theorem of_forall (hne : s ≠ []) (h : ∀ c ∈ s, isWhite c = false) : IsSolid s where
  ne_nil := hne
  head c hc := h c (List.mem_of_mem_head? hc)
  last c hc := h c (List.mem_of_mem_getLast? hc)

theorem singleton (c : Char) (h : isWhite c = false) : IsSolid [c] :=
  of_forall (List.cons_ne_nil _ _) (by simpa using h)

/-- Only the ends count: anything may stand between them. -/
theorem append (hs : IsSolid s) (u : List Char) (ht : IsSolid t) : IsSolid (s ++ (u ++ t)) where
  ne_nil := by simp [hs.ne_nil]
  head c hc := by
    rw [List.head?_append, List.head?_eq_some_head hs.ne_nil, Option.some_or] at hc
    exact hs.head c (List.head?_eq_some_head hs.ne_nil ▸ hc)
  last c hc := by
    rw [← List.append_assoc, List.getLast?_append, List.getLast?_eq_some_getLast ht.ne_nil,
      Option.some_or] at hc
    exact ht.last c (List.getLast?_eq_some_getLast ht.ne_nil ▸ hc)

theorem exists_cons (hs : IsSolid s) : ∃ c t, s = c :: t ∧ isWhite c = false := by
  cases s with
  | nil => exact absurd rfl hs.ne_nil
  | cons c t => exact ⟨c, t, rfl, hs.head c rfl⟩

/-- Solid text is left alone by trimming. -/
theorem trim_eq (hs : IsSolid s) : trim s = s := by
  obtain ⟨c, t, rfl, hc⟩ := hs.exists_cons
  obtain ⟨u, d, hu⟩ := (List.eq_nil_or_concat (c :: t)).resolve_left hs.ne_nil
  rw [trim, trimStart_cons_of_not hc, hu, List.concat_eq_append]
  apply trimEnd_concat_of_not
  exact hs.last d (by rw [hu, List.concat_eq_append, List.getLast?_concat, Option.mem_def])

end IsSolid

/-- Trimming loses white space only. -/
theorem mem_trimStart {c : Char} {s : List Char} (hmem : c ∈ s) (hc : isWhite c = false) :
    c ∈ trimStart s := by
  induction s with
  | nil => cases hmem
  | cons d s ih =>
    cases hd : isWhite d with
    | false => rwa [trimStart_cons_of_not hd]
    | true =>
      rw [trimStart, List.dropWhile_cons_of_pos hd]
      rcases List.mem_cons.1 hmem with rfl | hmem
      · rw [hc] at hd
        cases hd
      · exact ih hmem

/-- A text in which not everything is white is solid once it is trimmed. -/
theorem isSolid_trim {c : Char} {s : List Char} (hmem : c ∈ s) (hc : isWhite c = false) :
    IsSolid (trim s) := by
  have hstart := mem_trimStart hmem hc
  cases htrim : trimStart s with
  | nil =>
    rw [htrim] at hstart
    cases hstart
  | cons d t =>
    have hd : isWhite d = false := head?_trimStart s d (by rw [htrim, List.head?_cons]; rfl)
    have hlast := getLast?_trimEnd (d :: t)
    rw [trim, htrim]
    rw [trimEnd_cons_of_not hd] at hlast ⊢
    exact ⟨List.cons_ne_nil _ _, by simpa using hd, hlast⟩

/-- Trimming finds solid text between white text. -/
theorem trim_of_isSolid {s before after : List Char} (hs : IsSolid s)
    (hbefore : ∀ c ∈ before, isWhite c = true) (hafter : ∀ c ∈ after, isWhite c = true) :
    trim (before ++ (s ++ after)) = s := by
  have hstart : trimStart (before ++ (s ++ after)) = s ++ after := by
    obtain ⟨c, t, rfl, hc⟩ := hs.exists_cons
    rw [trimStart, List.dropWhile_append_of_pos hbefore]
    exact trimStart_cons_of_not hc
  have hend : trimEnd (s ++ after) = trimEnd s := by
    rw [trimEnd, List.reverse_append,
      List.dropWhile_append_of_pos (by simpa only [List.mem_reverse] using hafter), trimEnd]
  rw [trim, hstart, hend, trimEnd_of_trim_eq_self hs.trim_eq]

end FluentMerge.Text
