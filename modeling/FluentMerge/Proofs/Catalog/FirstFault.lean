import FluentMerge.Catalog.Parser
import Mathlib.Data.List.Forall2

/-!
# The first fault of a catalog

Reading goes line by line and stops at the first line that is wrong, so what stands above that line
is a catalog, and what stands below it does not matter (`isFirstFault_of_parse`). Both rest on the
one equation `readLines_append`: lines are read by reading the first of them, and the others from
where these lead. The end of a text is never wrong, whatever is being read there.
-/

namespace FluentMerge

open Text (lines trim)

/-! ## The first lines of a text -/

namespace Text

/-- The first `n` lines of a text, with their line ends. -/
def firstLines : Nat → List Char → List Char
  | 0, _ => []
  | _ + 1, [] => []
  | n + 1, c :: s => c :: if c = '\n' then firstLines n s else firstLines (n + 1) s

theorem lines_firstLines (n : Nat) (s : List Char) : lines (firstLines n s) = (lines s).take n := by
  fun_induction firstLines n s with
  | case1 => rfl
  | case2 => rfl
  | case3 n c s ih₁ ih₂ =>
    by_cases hc : c = '\n'
    · rw [if_pos hc, lines, if_pos hc, lines, if_pos hc, ih₁, List.take_succ_cons]
    · rw [if_neg hc, lines, if_neg hc, lines, if_neg hc, ih₂]
      cases lines s with
      | nil => simp
      | cons l ls => rfl

/-- Whether two texts have the same first `n` lines, white space around a line aside. -/
def SameFirstLines (n : Nat) (s t : List Char) : Prop :=
  ((lines s).take n).map trim = ((lines t).take n).map trim

end Text

open Text (firstLines SameFirstLines)

/-! ## Reading in parts -/

/-- What lines say is a matter of what is left of them without the white space around them. -/
theorem map_ofText_congr {ls ms : List (List Char)} (h : ls.map trim = ms.map trim) :
    ls.map CatalogLine.ofText = ms.map CatalogLine.ofText := by
  rw [← List.forall₂_eq_eq_eq, List.forall₂_map_left_iff, List.forall₂_map_right_iff] at h ⊢
  refine h.imp fun s t hline => ?_
  unfold CatalogLine.ofText
  rw [hline]

namespace PartialCatalog

variable {p : PartialCatalog} {n : Nat} {above below ls ms : List (List Char)} {e : CatalogError}

/-- Lines below others are read from where these lead. -/
theorem readLines_append (p : PartialCatalog) (n : Nat) (above below : List (List Char)) :
    p.readLines n (above ++ below) =
      p.readLines n above >>= fun q => q.readLines (n + above.length) below := by
  induction above generalizing p n with
  | nil => rfl
  | cons line above ih =>
    rw [List.cons_append, readLines, readLines, List.length_cons, Nat.add_comm above.length,
      ← Nat.add_assoc]
    cases p.readLine line with
    | error fault => rfl
    | ok q => exact ih q (n + 1)

/-- Lines are read by what they say. -/
theorem readLines_congr (h : ls.map CatalogLine.ofText = ms.map CatalogLine.ofText)
    (p : PartialCatalog) (n : Nat) : p.readLines n ls = p.readLines n ms := by
  induction ls generalizing ms p n with
  | nil =>
    obtain rfl : ms = [] := List.map_eq_nil_iff.1 h.symm
    rfl
  | cons l ls ih =>
    obtain ⟨m, ms, rfl, hm, hms⟩ := List.map_eq_cons_iff.1 h.symm
    have hread : p.readLine l = p.readLine m := by
      unfold readLine
      rw [hm]
    unfold readLines
    rw [hread]
    split
    · exact ih hms.symm _ _
    · rfl

/-- An error names a line that is wrong where the lines above it lead. -/
theorem exists_of_readLines_eq_error (h : p.readLines n ls = .error e) :
    ∃ above line below q, ls = above ++ line :: below ∧ p.readLines n above = .ok q ∧
      q.readLine line = .error e.fault ∧ e.line = n + above.length := by
  induction ls generalizing p n with
  | nil => cases h
  | cons s ls ih =>
    rw [readLines] at h
    cases hread : p.readLine s with
    | error fault =>
      rw [hread] at h
      cases h
      exact ⟨[], s, ls, p, rfl, rfl, hread, rfl⟩
    | ok p' =>
      rw [hread] at h
      obtain ⟨above, line, below, q, rfl, habove, hfault, hline⟩ := ih h
      refine ⟨s :: above, line, below, q, rfl, ?_, hfault, ?_⟩
      · rw [readLines, hread]
        exact habove
      · rw [hline, List.length_cons]
        omega

/-- Lines whose first ones end with a wrong one are refused with it. -/
theorem readLines_of_error (h : p.readLines n above = .error e) (below : List (List Char)) :
    p.readLines n (above ++ below) = .error e := by
  rw [readLines_append, h]
  rfl

end PartialCatalog

/-! ## Catalogs -/

/-- Whether an error is the first one of a text: it names a line of the text, the lines above are a
catalog, and every text that is the same down to this line has this error. -/
structure IsFirstFault (text : String) (e : CatalogError) : Prop where
  line_pos : 1 ≤ e.line
  line_le : e.line ≤ (lines text.toList).length
  above : ∃ c, Catalog.parse (String.ofList (firstLines (e.line - 1) text.toList)) = .ok c
  below : ∀ other : String, SameFirstLines e.line text.toList other.toList →
    Catalog.parse other = .error e

theorem parse_eq_error_iff {text : String} {e : CatalogError} :
    Catalog.parse text = .error e ↔
      PartialCatalog.start.readLines 1 (lines text.toList) = .error e := by
  unfold Catalog.parse
  cases PartialCatalog.start.readLines 1 (lines text.toList) with
  | error f =>
    show Except.error f = .error e ↔ _
    rw [Except.error.injEq, Except.error.injEq]
  | ok p => exact ⟨nofun, nofun⟩

/-- An error of reading is the first one of the text. -/
theorem isFirstFault_of_parse {text : String} {e : CatalogError}
    (h : Catalog.parse text = .error e) : IsFirstFault text e := by
  have hread := parse_eq_error_iff.1 h
  obtain ⟨above, line, below, q, hlines, habove, hfault, hline⟩ :=
    PartialCatalog.exists_of_readLines_eq_error hread
  -- the first `e.line` lines end with the wrong one
  have hfirst : (lines text.toList).take e.line = above ++ [line] := by
    rw [hlines, hline, Nat.add_comm, List.take_length_add_append, List.take_one]
    rfl
  have herror : PartialCatalog.start.readLines 1 (above ++ [line]) = .error e := by
    rw [PartialCatalog.readLines_append, habove]
    show q.readLines (1 + above.length) [line] = .error e
    rw [PartialCatalog.readLines, hfault, ← hline]
  refine ⟨?_, ?_, ?_, fun other hother => ?_⟩
  · omega
  · rw [hlines, List.length_append, List.length_cons]
    omega
  · refine ⟨q.finish, ?_⟩
    have hbefore : lines (firstLines (e.line - 1) text.toList) = above := by
      rw [Text.lines_firstLines, hlines, hline, Nat.add_sub_cancel_left, List.take_left]
    rw [Catalog.parse, String.toList_ofList, hbefore, habove]
    rfl
  · have hsame : ((lines other.toList).take e.line).map trim = (above ++ [line]).map trim := by
      rw [← hfirst]
      exact hother.symm
    rw [parse_eq_error_iff, ← List.take_append_drop e.line (lines other.toList)]
    apply PartialCatalog.readLines_of_error
    rw [PartialCatalog.readLines_congr (map_ofText_congr hsame), herror]

/-- A translation below a blank line, which has closed the record it is for. Below it, all else is
wrong too. -/
def cutOffText : String := "msgid \"a\"\n \n  msgstr \"A\"\nmsgstr[x\n\"\n"

theorem isFirstFault_of_parse_cutOff :
    Catalog.parse cutOffText = .error ⟨3, .missingMsgid⟩ ∧
      IsFirstFault cutOffText ⟨3, .missingMsgid⟩ := by
  have hparse : Catalog.parse cutOffText = .error ⟨3, .missingMsgid⟩ := by decide +kernel
  exact ⟨hparse, isFirstFault_of_parse hparse⟩

end FluentMerge
