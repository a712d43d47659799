import FluentMerge.Merge.Basic
import FluentMerge.Proofs.Document.Layout
import FluentMerge.Proofs.Document.Names

/-!
# How a merged document is spread out

A merged document consists of the texts of its translated messages, in order, and of line ends. Two
texts have at least one line end between them, because the entries they come from have one
(`merge_spread`).
-/

namespace FluentMerge

/-- `Spread texts s`: the text `s` holds `texts` in order, each on lines of its own, and otherwise
nothing but line ends. -/
inductive Spread : List (List Char) → List Char → Prop
  | nil : Spread [] []
  | lineEnd {texts : List (List Char)} {s : List Char} : Spread texts s → Spread texts ('\n' :: s)
  | text {x s : List Char} {texts : List (List Char)} : x ≠ [] → Spread texts s →
      (∀ c ∈ s.head?, c = '\n') → Spread (x :: texts) (x ++ s)

theorem Spread.lineEnds {texts : List (List Char)} {s : List Char} (h : Spread texts s) (n : Nat) :
    Spread texts (List.replicate n '\n' ++ s) := by
  induction n with
  | zero => exact h
  | succ n ih => exact .lineEnd ih

/-- The messages that a merge does not drop: those with something translated. -/
def keptMessages (t : Translations) (es : List Entry) : List Message :=
  es.filterMap fun e => match e with
    | .message m => if m.translated t = "" then none else some m
    | _ => none

theorem mem_keptMessages {t : Translations} {es : List Entry} {m : Message} :
    m ∈ keptMessages t es ↔ .message m ∈ es ∧ m.translated t ≠ "" := by
  rw [keptMessages, List.mem_filterMap]
  constructor
  · rintro ⟨e, he, hm⟩
    cases e with
    | message m' =>
      by_cases h : m'.translated t = ""
      · simp [h] at hm
      · obtain rfl : m' = m := by simpa [h] using hm
        exact ⟨he, h⟩
    | _ => cases hm
  · rintro ⟨he, h⟩
    exact ⟨_, he, by simp [h]⟩

theorem keptMessages_cons (t : Translations) (e : Entry) (es : List Entry) :
    keptMessages t (e :: es) = keptMessages t [e] ++ keptMessages t es := by
  rw [keptMessages, ← List.singleton_append, List.filterMap_append]
  rfl

/-- An entry is translated to the text of a message that is kept, or to nothing. -/
theorem Entry.translated_cases {t : Translations} {e : Entry} {x : String}
    (h : e.translated t = .ok x) :
    (keptMessages t [e] = [] ∧ x.toList = []) ∨
      ∃ m, e = .message m ∧ x = m.translated t ∧ keptMessages t [e] = [m] ∧ x.toList ≠ [] := by
  cases e with
  | message m =>
    cases h
    by_cases hm : m.translated t = ""
    · exact .inl ⟨by simp [keptMessages, hm], by rw [hm]; rfl⟩
    · refine .inr ⟨m, rfl, rfl, by simp [keptMessages, hm], ?_⟩
      simpa using hm
  | term _ =>
    cases h
    exact .inl ⟨rfl, rfl⟩
  | comment level _ =>
    cases level <;> cases h <;> exact .inl ⟨rfl, rfl⟩
  | junk _ => cases h

/-- Two entries of which the first is no junk have at least one line end between them. -/
theorem Laid.separatorLength_pos {before s : List Char} {e f : Entry} {es : List Entry}
    (h : Laid before (e :: f :: es) s) (he : e.kind ≠ .junk) :
    0 < separatorLength e.span f.span := by
  obtain ⟨a, b, pre, between, after, ha, hb, -, hstop, hstart, hmem⟩ :=
    h.neighbours e f ⟨[], es, rfl⟩ he
  have hbetween := byteLength_pos (List.ne_nil_of_mem hmem)
  rw [Text.byteLength_append] at hstart
  have := separatorLength_of_le (b := a) (a := b) (by omega)
  rw [ha, hb]
  omega

/-- The entries behind the first lie behind it. -/
theorem Laid.tail {before s : List Char} {e : Entry} {es : List Entry}
    (h : Laid before (e :: es) s) : ∃ before' s', Laid before' es s' := by
  cases h with
  | cons _ _ _ _ _ _ _ htail => exact ⟨_, _, htail⟩

theorem mergeEntries_spread {t : Translations} {before s : List Char} {es : List Entry}
    {out : String} (hlaid : Laid before es s) (h : mergeEntries t es = .ok out) :
    Spread ((keptMessages t es).map fun m => (m.translated t).toList) out.toList := by
  fun_induction mergeEntries t es generalizing before s out with
  | case1 =>
    cases h
    exact .nil
  | case2 e =>
    rcases Entry.translated_cases h with ⟨hkept, hempty⟩ | ⟨m, -, rfl, hkept, hne⟩
    · rw [hkept, hempty]
      exact .nil
    · rw [hkept, ← List.append_nil (String.toList _)]
      exact .text hne .nil (by simp)
  | case3 e f rest ih =>
    -- the separator is nothing but line ends, with or without a text in front of it
    obtain ⟨first, hfirst, h⟩ := bind_eq_ok_iff.1 h
    obtain ⟨others, hothers, h⟩ := bind_eq_ok_iff.1 h
    cases h
    obtain ⟨_, _, htail⟩ := hlaid.tail
    have hspread := (ih htail hothers).lineEnds (separatorLength e.span f.span)
    rw [keptMessages_cons, String.toList_append, String.toList_append, toList_separator,
      List.append_assoc, List.map_append]
    rcases Entry.translated_cases hfirst with ⟨hkept, hempty⟩ | ⟨m, rfl, rfl, hkept, hne⟩
    · rw [hkept, hempty]
      exact hspread
    · rw [hkept]
      refine .text hne hspread ?_
      -- the message and what follows are at least one line apart
      obtain ⟨n, hn⟩ := Nat.exists_eq_add_one.2 (hlaid.separatorLength_pos (by simp [Entry.kind]))
      rw [hn, List.replicate_succ]
      simp

/-- A document that is read from a file is merged to its messages' texts and line ends. -/
theorem merge_spread {t : Translations} {ftl out : String}
    (h : mergeEntries t (Document.ofFileText ftl).entries = .ok out) :
    Spread ((keptMessages t (Document.ofFileText ftl).entries).map fun m =>
      (m.translated t).toList) out.toList :=
  mergeEntries_spread (parse_laid _) h

end FluentMerge
