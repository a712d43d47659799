import FluentMerge.Text.Lines

/-!
# Line ends of one kind

How `unifyLineEnds` goes over a text that is put together of others, and what it makes of the ways
in which the same lines can be written: some line ends as `CR LF` (`WritesCrLf`), or all as `CR`
(`endLinesByCr`). It leaves one `LF` for each line end there was (`count_unifyLineEnds`).
-/

namespace FluentMerge.Text

theorem unifyLineEnds_cons {c : Char} (h : c ≠ '\r') (s : List Char) :
    unifyLineEnds (c :: s) = c :: unifyLineEnds s := by
  rw [unifyLineEnds, if_neg h]
  intro t hc _
  exact h hc

/-- Text without a carriage return stays as it is, also in front of other text. -/
theorem unifyLineEnds_append {w : List Char} (h : '\r' ∉ w) (s : List Char) :
    unifyLineEnds (w ++ s) = w ++ unifyLineEnds s := by
  induction w with
  | nil => rfl
  | cons c w ih =>
    rw [List.cons_append, unifyLineEnds_cons (fun hc => h (by simp [hc])),
      ih (fun hmem => h (List.mem_cons_of_mem _ hmem)), List.cons_append]

/-- Behind a text a line ends. The last line of the text may be ended already, by the carriage
return that then belongs to the same line end. -/
theorem unifyLineEnds_append_lineEnd (x s : List Char) :
    ∃ w c, (c = [] ∨ c = ['\n']) ∧ unifyLineEnds x = w ++ c ∧
      unifyLineEnds (x ++ '\n' :: s) = w ++ '\n' :: unifyLineEnds s := by
  fun_induction unifyLineEnds x with
  | case1 => exact ⟨[], [], .inl rfl, rfl, unifyLineEnds_cons (by decide) s⟩
  | case2 x ih =>
    -- a carriage return and a line feed, both within the text
    obtain ⟨w, c, hc, hx, hs⟩ := ih
    exact ⟨'\n' :: w, c, hc, by rw [hx, List.cons_append], by
      rw [List.cons_append, List.cons_append, unifyLineEnds, hs, List.cons_append]⟩
  | case3 a x hne ih =>
    cases x with
    | nil =>
      by_cases ha : a = '\r'
      · subst ha
        -- the carriage return at the end takes the line feed behind it with it
        exact ⟨[], ['\n'], .inr rfl, rfl, rfl⟩
      · exact ⟨[a], [], .inl rfl, by simp [unifyLineEnds, ha], by
          rw [List.singleton_append, unifyLineEnds_cons ha, unifyLineEnds_cons (by decide)]
          rfl⟩
    | cons d x =>
      obtain ⟨w, c, hc, hx, hs⟩ := ih
      refine ⟨(if a = '\r' then '\n' else a) :: w, c, hc, by rw [hx, List.cons_append], ?_⟩
      rw [List.cons_append, unifyLineEnds, hs, List.cons_append]
      intro t ha hd
      rw [List.cons_append] at hd
      exact hne x ha (by rw [(List.cons.inj hd).1])

/-- Only a mark at the front of a text is dropped. -/
theorem dropByteOrderMark_of_head {s : List Char} (h : s.head? ≠ some '\ufeff') :
    dropByteOrderMark s = s := by
  unfold dropByteOrderMark
  split
  · exact absurd rfl h
  · rfl

/-! ## Other line ends -/

/-- Whether `t` is the text `s` with some of its line ends `LF` written `CR LF`. -/
inductive WritesCrLf : List Char → List Char → Prop
  | nil : WritesCrLf [] []
  | same {s t : List Char} (c : Char) : WritesCrLf s t → WritesCrLf (c :: s) (c :: t)
  | lineEnd {s t : List Char} : WritesCrLf s t → WritesCrLf ('\n' :: s) ('\r' :: '\n' :: t)

/-- The text with every `LF` made a `CR`. -/
def endLinesByCr (s : List Char) : List Char := s.map fun c => if c = '\n' then '\r' else c

theorem WritesCrLf.refl (s : List Char) : WritesCrLf s s := by
  induction s with
  | nil => exact .nil
  | cons c s ih => exact .same c ih

/-- Line ends are chosen one by one, so what is written in two pieces is written as a whole. -/
theorem WritesCrLf.append {s t s' t' : List Char} (h : WritesCrLf s t) (h' : WritesCrLf s' t') :
    WritesCrLf (s ++ s') (t ++ t') := by
  induction h with
  | nil => exact h'
  | same c _ ih => exact .same c ih
  | lineEnd _ ih => exact .lineEnd ih

/-- Whichever line ends were written as two characters, they are made one again. -/
theorem WritesCrLf.unifyLineEnds_eq {s t : List Char} (h : WritesCrLf s t) (hs : '\r' ∉ s) :
    unifyLineEnds t = s := by
  induction h with
  | nil => rfl
  | @same s t c _ ih =>
    have hc : c ≠ '\r' := by
      rintro rfl
      exact hs (.head _)
    rw [unifyLineEnds_cons hc, ih fun hmem => hs (.tail _ hmem)]
  | @lineEnd s t _ ih =>
    rw [unifyLineEnds, ih fun hmem => hs (.tail _ hmem)]

/-- With carriage returns for all line ends no line feed is left. -/
theorem not_mem_endLinesByCr (s : List Char) : '\n' ∉ endLinesByCr s := by
  intro hmem
  obtain ⟨c, -, hc⟩ := List.mem_map.1 hmem
  split at hc
  · cases hc
  · next hne => exact hne hc

/-- Without an `LF` every `CR` stands alone. -/
theorem unifyLineEnds_of_not_mem {s : List Char} (h : '\n' ∉ s) :
    unifyLineEnds s = s.map fun c => if c = '\r' then '\n' else c := by
  induction s with
  | nil => rfl
  | cons c s ih =>
    have hs : '\n' ∉ s := fun hmem => h (.tail _ hmem)
    rw [unifyLineEnds, ih hs, List.map_cons]
    intro t _ ht
    exact hs (ht ▸ .head t)

/-- Carriage returns on their own are line ends too. -/
theorem unifyLineEnds_endLinesByCr {s : List Char} (h : '\r' ∉ s) :
    unifyLineEnds (endLinesByCr s) = s := by
  rw [unifyLineEnds_of_not_mem (not_mem_endLinesByCr s), endLinesByCr, List.map_map]
  refine (List.map_congr_left fun c hc => ?_).trans (List.map_id s)
  have hne : c ≠ '\r' := fun heq => h (heq ▸ hc)
  by_cases hline : c = '\n' <;> simp [hline, hne]

/-! ## The number of lines -/

/-- The number of places where an `LF` follows a `CR`. -/
def crLfs (s : List Char) : Nat := (s.zip s.tail).count ('\r', '\n')

/-- The number of line ends of a text: each `CR` and each `LF` is one, but a `CR` and the `LF` that
follows it are one together. -/
def lineEnds (s : List Char) : Nat := s.count '\r' + s.count '\n' - crLfs s

theorem crLfs_cons (c : Char) (s : List Char) :
    crLfs (c :: s) = (if c = '\r' ∧ s.head? = some '\n' then 1 else 0) + crLfs s := by
  cases s with
  | nil => simp [crLfs]
  | cons d s => simp [crLfs, List.count_cons, Nat.add_comm]

/-- A carriage return and a line feed behind it are one line end together; all others are one each.
-/
theorem count_unifyLineEnds_add (s : List Char) :
    (unifyLineEnds s).count '\n' + crLfs s = s.count '\r' + s.count '\n' := by
  fun_induction unifyLineEnds s with
  | case1 => rfl
  | case2 s ih =>
    simp [crLfs_cons]
    omega
  | case3 c s h ih =>
    have hpair : ¬ (c = '\r' ∧ s.head? = some '\n') := by
      rintro ⟨hc, hs⟩
      cases s with
      | nil => cases hs
      | cons d s => exact h s hc (by rw [Option.some.inj hs])
    rw [crLfs_cons, if_neg hpair]
    by_cases hc : c = '\r'
    · simp [hc]
      omega
    · by_cases hd : c = '\n' <;> simp [hc, hd] <;> omega

/-- One `LF` is left for each line end. -/
theorem count_unifyLineEnds (s : List Char) : (unifyLineEnds s).count '\n' = lineEnds s := by
  rw [lineEnds, ← count_unifyLineEnds_add]
  omega

end FluentMerge.Text
