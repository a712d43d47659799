import FluentMerge.Charset.Declaration
import FluentMerge.Proofs.Text.Trimming
import Mathlib.Data.List.Basic

/-!
# Declarations in longer texts

A declaration begins with the letter c, so text without it is gone over (`declared?_skip`), and two
declarations do not overlap. Therefore what a text declares is also what it declares with more text
behind it (`declared?_append`), and with text in front in which no declaration begins
(`StandsFirst.declared?_eq`).
-/

namespace FluentMerge.Charset

open Text (isWhite trimStart)

/-! ## Letters of the word -/

theorem toLower_eq_of_isLetterAnyCase {c : Char} (h : isLetterAnyCase 'c' c = true) :
    c.toLower = 'c' := by
  simpa [isLetterAnyCase] using h

/-- No other letter of the word is a c. -/
theorem isLetterAnyCase_of_ne {letter c : Char} (hletter : letter ≠ 'c')
    (h : isLetterAnyCase letter c = true) : isLetterAnyCase 'c' c = false := by
  rw [← Bool.not_eq_true]
  intro hc
  have hlower := toLower_eq_of_isLetterAnyCase hc
  simp only [isLetterAnyCase, hlower, Bool.or_eq_true, Bool.and_eq_true, beq_iff_eq] at h
  rcases h with rfl | ⟨-, rfl⟩
  · exact hletter rfl
  · revert hlower
    decide

theorem isLetterAnyCase_of_isWhite {c : Char} (h : isWhite c = true) :
    isLetterAnyCase 'c' c = false := by
  rw [← Bool.not_eq_true]
  intro hc
  have hlower := toLower_eq_of_isLetterAnyCase hc
  have hupper : ¬(c.val ≥ 'A'.val ∧ c.val ≤ 'Z'.val) := by
    intro hletter
    have hbounds : 65 ≤ c.toNat ∧ c.toNat ≤ 90 := by
      simpa [UInt32.le_iff_toNat_le] using hletter
    rw [Text.isWhite_of_bounds (by omega)] at h
    cases h
  have hself : c.toLower = c := dif_neg hupper
  rw [← hself, hlower] at h
  revert h
  decide

/-! ## The word -/

section Word

variable {word s t : List Char}

theorem length_le_of_afterWord? (h : afterWord? word s = some t) : word.length ≤ s.length := by
  fun_induction afterWord? word s with
  | case1 => exact Nat.zero_le _
  | case2 => cases h
  | case3 w word c s hletter ih => exact Nat.succ_le_succ (ih h)
  | case4 => cases h

theorem afterWord?_append_some (h : afterWord? word s = some t) (u : List Char) :
    afterWord? word (s ++ u) = some (t ++ u) := by
  fun_induction afterWord? word s with
  | case1 =>
    cases h
    rfl
  | case2 => cases h
  | case3 w word c s hletter ih =>
    rw [List.cons_append, afterWord?, if_pos hletter, ih h]
  | case4 => cases h

/-- A text that is long enough for the word begins with it or does not, whatever follows. -/
theorem afterWord?_append_none (h : afterWord? word s = none) (hlength : word.length ≤ s.length)
    (u : List Char) : afterWord? word (s ++ u) = none := by
  fun_induction afterWord? word s with
  | case1 => cases h
  | case2 => simp at hlength
  | case3 w word c s hletter ih =>
    rw [List.cons_append, afterWord?, if_pos hletter, ih h (Nat.le_of_succ_le_succ hlength)]
  | case4 w word c s hletter => rw [List.cons_append, afterWord?, if_neg hletter]

end Word

/-! ## Where no declaration begins -/

/-- The label that is declared by what stands behind the word. -/
def labelBehindWord? (t : List Char) : Option (List Char) :=
  match trimStart t with
  | [] => none
  | c :: u =>
    let label := (trimStart u).takeWhile isLabelChar
    if c = '=' ∧ label ≠ [] then some (label.map lowerChar) else none

theorem labelHere?_eq (s : List Char) :
    labelHere? s = (afterWord? ['c', 'h', 'a', 'r', 's', 'e', 't'] s).bind labelBehindWord? := rfl

/-- No declaration begins with another letter. -/
theorem labelHere?_of_not {c : Char} (h : isLetterAnyCase 'c' c = false) (s : List Char) :
    labelHere? (c :: s) = none := by
  rw [labelHere?_eq, afterWord?, if_neg (by simp [h]), Option.bind_none]

theorem declared?_skip {p : List Char} (h : ∀ c ∈ p, isLetterAnyCase 'c' c = false)
    (s : List Char) : declared? (p ++ s) = declared? s := by
  induction p with
  | nil => rfl
  | cons c p ih =>
    rw [List.cons_append, declared?, labelHere?_of_not (h c (.head _))]
    exact ih fun d hd => h d (.tail _ hd)

theorem declared?_trimStart (s : List Char) : declared? (trimStart s) = declared? s := by
  have hwhite : ∀ c ∈ s.takeWhile isWhite, isLetterAnyCase 'c' c = false := by
    intro c hc
    have hall := List.all_takeWhile (l := s) (p := isWhite)
    exact isLetterAnyCase_of_isWhite (List.all_eq_true.1 hall c hc)
  have hskip := declared?_skip hwhite (trimStart s)
  rwa [trimStart, List.takeWhile_append_dropWhile, ← trimStart, eq_comm] at hskip

/-- Within the word no declaration begins. -/
theorem declared?_afterWord? {word s t : List Char} (hword : 'c' ∉ word)
    (h : afterWord? word s = some t) : declared? s = declared? t := by
  fun_induction afterWord? word s with
  | case1 =>
    cases h
    rfl
  | case2 => cases h
  | case3 w word c s hletter ih =>
    obtain ⟨hw, hword⟩ : 'c' ≠ w ∧ 'c' ∉ word := by simpa using hword
    have hc := isLetterAnyCase_of_ne (Ne.symm hw) hletter
    rw [← ih hword h]
    exact declared?_skip (p := [c]) (by simpa using hc) s
  | case4 => cases h

/-- A text that declares something is longer than the word. -/
theorem length_le_of_declared? {s : List Char} (h : declared? s ≠ none) : 7 ≤ s.length := by
  induction s with
  | nil => exact absurd rfl h
  | cons c s ih =>
    cases hhere : labelHere? (c :: s) with
    | none =>
      rw [declared?, hhere] at h
      exact Nat.le_succ_of_le (ih h)
    | some label =>
      obtain ⟨t, ht, -⟩ := Option.bind_eq_some_iff.1 hhere
      exact length_le_of_afterWord? ht

/-! ## More text behind a declaration -/

section Append

variable {s t label after : List Char}

theorem trimStart_append {c : Char} {u : List Char} (h : trimStart s = c :: u) (t : List Char) :
    trimStart (s ++ t) = c :: (u ++ t) := by
  rw [trimStart] at h ⊢
  rw [List.dropWhile_append, h]
  rfl

theorem takeWhile_append_of_head {p : Char → Bool} (hafter : ∀ c ∈ after.head?, p c = false)
    (s : List Char) : (s ++ after).takeWhile p = s.takeWhile p := by
  rw [List.takeWhile_append, Text.takeWhile_of_head hafter]
  split
  · next hlength =>
    rw [List.append_nil]
    exact ((List.takeWhile_prefix p).eq_of_length hlength).symm
  · rfl

theorem labelBehindWord?_append_some (h : labelBehindWord? t = some label)
    (hafter : ∀ c ∈ after.head?, isLabelChar c = false) :
    labelBehindWord? (t ++ after) = some label := by
  rw [labelBehindWord?] at h
  split at h
  · cases h
  · next c u hu =>
    dsimp only at h
    split at h
    · next hlabel =>
      obtain ⟨e, v, hv⟩ : ∃ e v, trimStart u = e :: v := by
        apply List.exists_cons_of_ne_nil
        intro hnil
        exact hlabel.2 (by rw [hnil]; rfl)
      have htail : trimStart (u ++ after) = trimStart u ++ after := by
        rw [trimStart_append hv, hv, List.cons_append]
      rw [labelBehindWord?, trimStart_append hu]
      dsimp only
      rw [htail, takeWhile_append_of_head hafter, if_pos hlabel, h]
    · cases h

/-- Where nothing is declared in front of a declaration, nothing is with more text behind it. -/
theorem labelBehindWord?_append_none (h : labelBehindWord? t = none) (ht : declared? t ≠ none) :
    labelBehindWord? (t ++ after) = none := by
  rw [← declared?_trimStart] at ht
  rw [labelBehindWord?] at h
  split at h
  · next hu =>
    rw [hu] at ht
    exact absurd rfl ht
  · next c u hu =>
    rw [labelBehindWord?, trimStart_append hu]
    dsimp only at h ⊢
    refine if_neg ?_
    rintro ⟨rfl, hne⟩
    have hequals : declared? ('=' :: u) = declared? (trimStart u) := by
      rw [declared?_trimStart]
      exact declared?_skip (p := ['=']) (by simp [isLetterAnyCase]) u
    rw [hu, hequals] at ht
    cases hv : trimStart u with
    | nil =>
      rw [hv] at ht
      exact ht rfl
    | cons e v =>
      -- what stands where the label should be is no label, so it stays none
      have he : isLabelChar e = false := by
        by_contra hlabel
        rw [hv, if_pos ⟨rfl, by simp [hlabel]⟩] at h
        cases h
      rw [trimStart_append hv] at hne
      exact hne (by simp [he])

theorem labelHere?_append_some (h : labelHere? s = some label)
    (hafter : ∀ c ∈ after.head?, isLabelChar c = false) :
    labelHere? (s ++ after) = some label := by
  rw [labelHere?_eq] at h ⊢
  obtain ⟨t, hword, hlabel⟩ := Option.bind_eq_some_iff.1 h
  rw [afterWord?_append_some hword, Option.bind_some, labelBehindWord?_append_some hlabel hafter]

theorem labelHere?_append_none {c : Char} (h : labelHere? (c :: t) = none)
    (ht : declared? t ≠ none) : labelHere? (c :: t ++ after) = none := by
  rw [labelHere?_eq] at h ⊢
  cases hword : afterWord? ['c', 'h', 'a', 'r', 's', 'e', 't'] (c :: t) with
  | none =>
    have hlength := length_le_of_declared? ht
    rw [afterWord?_append_none hword (Nat.le_succ_of_le hlength), Option.bind_none]
  | some u =>
    have hbehind : afterWord? ['h', 'a', 'r', 's', 'e', 't'] t = some u := by
      rw [afterWord?] at hword
      split at hword
      · exact hword
      · cases hword
    rw [hword, Option.bind_some] at h
    rw [declared?_afterWord? (by decide) hbehind] at ht
    rw [afterWord?_append_some hword, Option.bind_some, labelBehindWord?_append_none h ht]

/-- What a text declares stays declared with more text behind it, unless the label goes on. -/
theorem declared?_append (h : declared? s = some label)
    (hafter : ∀ c ∈ after.head?, isLabelChar c = false) : declared? (s ++ after) = some label := by
  induction s with
  | nil => cases h
  | cons c t ih =>
    rw [declared?] at h
    cases hhere : labelHere? (c :: t) with
    | some l =>
      rw [hhere] at h
      rw [List.cons_append, declared?, ← List.cons_append, labelHere?_append_some hhere hafter]
      exact h
    | none =>
      rw [hhere] at h
      have ht : declared? t ≠ none := by simp [h]
      rw [List.cons_append, declared?, ← List.cons_append, labelHere?_append_none hhere ht]
      exact ih h

end Append

/-! ## The first declaration -/

/-- Text in which no declaration begins is gone over. -/
theorem declared?_behind {before s : List Char}
    (h : ∀ v, v <:+ before → v ≠ [] → labelHere? (v ++ s) = none) :
    declared? (before ++ s) = declared? s := by
  induction before with
  | nil => rfl
  | cons c before ih =>
    have hhere := h (c :: before) List.suffix_rfl (List.cons_ne_nil _ _)
    rw [List.cons_append] at hhere
    rw [List.cons_append, declared?, hhere]
    exact ih fun v hv => h v (hv.trans (List.suffix_cons _ _))

/-- Whether a text stands in another one in front of which no declaration begins, and a label at its
end ends there. -/
def StandsFirst (s text : List Char) : Prop :=
  ∃ before after, text = before ++ (s ++ after) ∧
    (∀ v, v <:+ before → v ≠ [] → labelHere? (v ++ (s ++ after)) = none) ∧
    ∀ c ∈ after.head?, isLabelChar c = false

/-- What stands first is what is declared. -/
theorem StandsFirst.declared?_eq {s text label : List Char} (h : StandsFirst s text)
    (hs : declared? s = some label) : declared? text = some label := by
  obtain ⟨before, after, rfl, hbefore, hafter⟩ := h
  rw [declared?_behind hbefore]
  exact declared?_append hs hafter

end FluentMerge.Charset
