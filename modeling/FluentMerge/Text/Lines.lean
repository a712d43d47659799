/-!
# Lines and sizes

Line ends, the lines of a text, and the size of a text in UTF-8.

A document is read with one kind of line end, so `unifyLineEnds` first turns each `CR LF` and each
lone `CR` into `LF`. Its main statement, `not_mem_unifyLineEnds`, says that no `CR` is left.
-/

namespace FluentMerge.Text

/-- The number of bytes of the text in UTF-8. -/
def byteLength : List Char → Nat
  | [] => 0
  | c :: s => c.utf8Size + byteLength s

@[simp] theorem byteLength_nil : byteLength [] = 0 := rfl

@[simp] theorem byteLength_cons (c : Char) (s : List Char) :
    byteLength (c :: s) = c.utf8Size + byteLength s := rfl

@[simp] theorem byteLength_append (s t : List Char) :
    byteLength (s ++ t) = byteLength s + byteLength t := by
  induction s with
  | nil => simp
  | cons c s ih => simp [ih, Nat.add_assoc]

/-- The text with every line end, be it `CR LF`, `CR` or `LF`, written as `LF`. -/
def unifyLineEnds : List Char → List Char
  | [] => []
  | '\r' :: '\n' :: s => '\n' :: unifyLineEnds s
  | c :: s => (if c = '\r' then '\n' else c) :: unifyLineEnds s

/-- No `CR` is left. -/
theorem not_mem_unifyLineEnds (s : List Char) : '\r' ∉ unifyLineEnds s := by
  fun_induction unifyLineEnds s with
  | case1 => simp
  | case2 s ih => simp [ih]
  | case3 c s h ih => by_cases hc : c = '\r' <;> simp_all [eq_comm]

/-- A text without `CR` has the one kind of line end already. -/
theorem unifyLineEnds_eq_self {s : List Char} (h : '\r' ∉ s) : unifyLineEnds s = s := by
  induction s with
  | nil => rfl
  | cons c s ih =>
    have hc : c ≠ '\r' := by rintro rfl; simp at h
    have hs : '\r' ∉ s := by simp_all
    rw [unifyLineEnds, ih hs]
    · simp [hc]
    · intro t ht _
      exact hc ht

/-- The lines of a text, without their line ends. Nothing after the last line end is no line. -/
def lines : List Char → List (List Char)
  | [] => []
  | c :: s =>
    if c = '\n' then [] :: lines s
    else match lines s with
      | [] => [[c]]
      | l :: ls => (c :: l) :: ls

/-- A line end closes a line and opens nothing but what follows it. -/
theorem lines_append_cons {l : List Char} (h : '\n' ∉ l) (s : List Char) :
    lines (l ++ '\n' :: s) = l :: lines s := by
  induction l with
  | nil => simp [lines]
  | cons c l ih =>
    have hc : c ≠ '\n' := by rintro rfl; simp at h
    simp [lines, hc, ih (by simp_all)]

/-- A text without line end is one line. -/
theorem lines_of_not_mem {l : List Char} (h : '\n' ∉ l) (hl : l ≠ []) : lines l = [l] := by
  induction l with
  | nil => contradiction
  | cons c l ih =>
    have hc : c ≠ '\n' := by rintro rfl; simp at h
    cases l with
    | nil => simp [lines, hc]
    | cons d l => rw [lines, ih (by simp_all) (by simp)]; simp [hc]

/-- The text without one byte order mark at its beginning. -/
def dropByteOrderMark : List Char → List Char
  | '\ufeff' :: s => s
  | s => s

end FluentMerge.Text
