import Mathlib.Data.List.Perm.Basic
import FluentMerge.Catalog.Data
import FluentMerge.Json.Value

/-!
# Other ways of writing data

One value can be written in many ways. The members of an object can stand in any order, a record
can have members that nobody asks for, and a member that holds what its absence stands for can be
left out. A `Rewriting` says which values may stand for which. It also lets members be left out that
have to be there, and tells of it: a value is *whole* if none of these is missing, at any depth.

A reader fits a rewriting at a value (`ReadsAs`) if it reads the same from every whole way to write
the value, and nothing from one that is not whole. This is closed under the ways in which readers
are put together, so that the reader of a record fits as soon as those of its members do.
-/

namespace FluentMerge.Json

/-! ## Rewritings -/

/-- Which values may stand for which: `r v j whole` if `j` may stand for `v`, where `whole` tells
whether all that has to be there is there in `j`. -/
abbrev Rewriting := Json → Json → Bool → Prop

/-- One thing for each, whole if all of them are. -/
inductive Each {α β : Type} (r : α → β → Bool → Prop) : List α → List β → Bool → Prop
  | nil : Each r [] [] true
  | cons {a : α} {b : β} {as : List α} {bs : List β} {whole rest : Bool} :
      r a b whole → Each r as bs rest → Each r (a :: as) (b :: bs) (whole && rest)

/-- What a record knows of one of its members. -/
structure Member where
  name : String
  /-- What its absence stands for, if it can be absent. -/
  absent : Option Json
  value : Rewriting

/-- The members of a record in other ways. One that holds what its absence stands for may be left
out; without one that has to be there the record is not whole. -/
inductive Member.Rewrites :
    List Member → List (String × Json) → List (String × Json) → Bool → Prop
  | nil : Rewrites [] [] [] true
  | kept {name : String} {absent : Option Json} {r : Rewriting} {v j : Json} {whole rest : Bool}
      {fs : List Member} {vs js : List (String × Json)} :
      r v j whole → Rewrites fs vs js rest →
      Rewrites (⟨name, absent, r⟩ :: fs) ((name, v) :: vs) ((name, j) :: js) (whole && rest)
  | leftOut {name : String} {r : Rewriting} {v : Json} {rest : Bool} {fs : List Member}
      {vs js : List (String × Json)} :
      Rewrites fs vs js rest →
      Rewrites (⟨name, some v, r⟩ :: fs) ((name, v) :: vs) js rest
  | missing {name : String} {r : Rewriting} {v : Json} {rest : Bool} {fs : List Member}
      {vs js : List (String × Json)} :
      Rewrites fs vs js rest →
      Rewrites (⟨name, none, r⟩ :: fs) ((name, v) :: vs) js false

namespace Rewriting

/-- Not in another way. -/
inductive same : Rewriting
  | intro {v : Json} : same v v true

/-- A value or null; null stays null. -/
inductive nullable (r : Rewriting) : Rewriting
  | null : nullable r .null .null true
  | value {v j : Json} {whole : Bool} :
      v ≠ .null → j ≠ .null → r v j whole → nullable r v j whole

/-- An array, item by item. -/
inductive array (r : Rewriting) : Rewriting
  | intro {items items' : List Json} {whole : Bool} :
      Each r items items' whole → array r (.array items) (.array items') whole

/-- A record, its members in any order and among others. -/
inductive record (fs : List Member) : Rewriting
  | intro {vs js others members : List (String × Json)} {whole : Bool} :
      Member.Rewrites fs vs js whole →
      (∀ m ∈ others, m.1 ∉ fs.map Member.name) →
      members.Perm (others ++ js) →
      record fs (.object vs) (.object members) whole

/-- A table, its entries in any order. None is left out and none comes in. -/
inductive table (r : Rewriting) : Rewriting
  | intro {vs ordered members : List (String × Json)} {whole : Bool} :
      ordered.Perm vs →
      Each (fun m n whole => n.1 = m.1 ∧ r m.2 n.2 whole) ordered members whole →
      table r (.object vs) (.object members) whole

end Rewriting

namespace Member

/-- A member that has to be there. -/
def required (name : String) (value : Rewriting) : Member := ⟨name, none, value⟩

/-- A member that may be null, for which its absence stands. -/
def optional (name : String) (value : Rewriting) : Member := ⟨name, some .null, .nullable value⟩

/-- A member with an array, for an empty one of which its absence stands. -/
def list (name : String) (value : Rewriting) : Member := ⟨name, some (.array []), .array value⟩

end Member

/-! ## Readers that fit -/

/-- The value can be left as it is. Whatever may stand for it is read as `x` if it is whole, and
else it is refused. -/
structure ReadsAs {α : Type} (read? : Json → Option α) (r : Rewriting) (v : Json) (x : α) :
    Prop where
  refl : r v v true
  reads : ∀ {j : Json} {whole : Bool}, r v j whole → read? j = if whole then some x else none

/-- The same for the members of a record, in whatever object they stand. -/
structure Member.ReadAs {α : Type} (read? : Json → Option α) (fs : List Member)
    (vs : List (String × Json)) (x : α) : Prop where
  refl : Rewrites fs vs vs true
  reads : ∀ {js others members : List (String × Json)} {whole : Bool},
    Rewrites fs vs js whole →
    (fs.map Member.name).Nodup →
    (∀ m ∈ others, m.1 ∉ fs.map Member.name) →
    members.Perm (others ++ js) →
    read? (.object members) = if whole then some x else none

section Values

variable {α : Type} {read? : Json → Option α} {r : Rewriting} {v : Json} {x : α}

theorem ReadsAs.read_self (h : ReadsAs read? r v x) : read? v = some x := h.reads h.refl

theorem readsAs_string (s : String) : ReadsAs string? .same (.string s) s := by
  refine ⟨.intro, ?_⟩
  rintro _ _ ⟨⟩
  rfl

theorem readsAs_offset {n : Nat} (h : n < UInt64.size) :
    ReadsAs offset? .same (.natural n) n := by
  refine ⟨.intro, ?_⟩
  rintro _ _ ⟨⟩
  exact if_pos h

theorem readsAs_ofOption {write : α → Json} {o : Option α} (hnull : ∀ a, write a ≠ .null)
    (h : ∀ a ∈ o, ReadsAs read? r (write a) a) :
    ReadsAs (nullable? read?) (.nullable r) (ofOption write o) o := by
  cases o with
  | none =>
    refine ⟨.null, ?_⟩
    rintro _ _ (_ | ⟨hv, _, _⟩)
    · rfl
    · exact absurd rfl hv
  | some a =>
    refine ⟨.value (hnull a) (hnull a) (h a rfl).refl, ?_⟩
    intro j whole hj
    have hread : ∀ {j : Json}, j ≠ .null → nullable? read? j = (read? j).map some := by
      intro j hj
      cases j <;> first | rfl | exact absurd rfl hj
    generalize hv : ofOption write (some a) = v at hj
    cases hj with
    | null => exact absurd hv (hnull a)
    | value _ hj hrewrite =>
      subst hv
      rw [hread hj, (h a rfl).reads hrewrite]
      cases whole <;> rfl

/-- What is read one by one from what was written one by one. -/
theorem Each.mapM_eq {α β γ : Type} {r : β → γ → Bool → Prop} {write : α → β}
    {read? : γ → Option α} {xs : List α} {js : List γ} {whole : Bool}
    (h : ∀ x ∈ xs, ∀ {j whole}, r (write x) j whole → read? j = if whole then some x else none)
    (heach : Each r (xs.map write) js whole) :
    js.mapM read? = if whole then some xs else none := by
  induction xs generalizing js whole with
  | nil =>
    cases heach
    rfl
  | cons x xs ih =>
    cases heach with
    | @cons _ j _ js whole rest hfirst hrest =>
      rw [List.mapM_cons, h x (.head _) hfirst, ih (fun y hy => h y (.tail _ hy)) hrest]
      cases whole <;> cases rest <;> rfl

theorem Each.refl_map {α β : Type} {r : β → β → Bool → Prop} {write : α → β} {xs : List α}
    (h : ∀ x ∈ xs, r (write x) (write x) true) : Each r (xs.map write) (xs.map write) true := by
  induction xs with
  | nil => exact .nil
  | cons x xs ih => exact .cons (h x (.head _)) (ih fun y hy => h y (.tail _ hy))

theorem readsAs_ofList {write : α → Json} {xs : List α}
    (h : ∀ x ∈ xs, ReadsAs read? r (write x) x) :
    ReadsAs (listOf? read?) (.array r) (ofList write xs) xs := by
  refine ⟨.intro (.refl_map fun x hx => (h x hx).refl), ?_⟩
  rintro _ _ ⟨heach⟩
  exact heach.mapM_eq fun x hx => (h x hx).reads

end Values

/-! ### Tables -/

section Tables

variable {α : Type}

/-- A table is made of its entries, put in in any order. -/
theorem foldl_insert_of_perm {t : Std.ExtTreeMap String α} {entries : List (String × α)}
    (h : entries.Perm t.toList) : entries.foldl (fun t m => t.insert m.1 m.2) ∅ = t := by
  rw [← Std.ExtTreeMap.ofList_eq_foldl]
  apply Std.ExtTreeMap.ext_getElem?
  intro name
  have hdistinct : entries.Pairwise fun a b => ¬ compare a.1 b.1 = .eq := by
    apply h.symm.pairwise Std.ExtTreeMap.distinct_keys_toList
    intro a b hab hba
    exact hab (Std.OrientedCmp.eq_symm hba)
  cases hfound : t[name]? with
  | none =>
    apply Std.ExtTreeMap.getElem?_ofList_of_contains_eq_false
    simp only [List.contains_eq_mem, List.mem_map, decide_eq_false_iff_not, not_exists, not_and]
    rintro ⟨_, x⟩ hmem rfl
    have hx := Std.ExtTreeMap.mem_toList_iff_getElem?_eq_some.1 (h.mem_iff.1 hmem)
    exact nomatch hfound.symm.trans hx
  | some x =>
    have hmem := h.mem_iff.2 (Std.ExtTreeMap.mem_toList_iff_getElem?_eq_some.2 hfound)
    exact Std.ExtTreeMap.getElem?_ofList_of_mem Std.ReflCmp.compare_self hdistinct hmem

theorem readsAs_ofTable {read? : Json → Option α} {r : Rewriting} {write : α → Json}
    {t : Std.ExtTreeMap String α}
    (h : ∀ e ∈ t.toList, ReadsAs read? r (write e.2) e.2) :
    ReadsAs (tableOf? read?) (.table r) (ofTable write t) t := by
  refine ⟨.intro .rfl (.refl_map fun e he => ⟨rfl, (h e he).refl⟩), ?_⟩
  intro j whole hj
  obtain @⟨_, ordered, members, _, hordered, heach⟩ := hj
  -- an order of the members is one of the entries behind them
  obtain ⟨entries, rfl, hentries⟩ :
      ∃ entries : List (String × α),
        ordered = entries.map (fun e => (e.1, write e.2)) ∧ entries.Perm t.toList := by
    have hcomp := congrFun₂ (List.eq_map_comp_perm fun e : String × α => (e.1, write e.2))
    exact (hcomp ordered t.toList).mpr hordered
  have hread : membersOf? read? (.object members) = if whole then some entries else none := by
    apply heach.mapM_eq
    rintro ⟨name, x⟩ hx ⟨name', j⟩ whole ⟨rfl, hj⟩
    rw [(h _ (hentries.mem_iff.1 hx)).reads hj]
    cases whole <;> rfl
  -- the entries have different names, so their order makes no difference
  unfold tableOf?
  rw [hread]
  cases whole with
  | false => rfl
  | true => exact congrArg some (foldl_insert_of_perm hentries)

end Tables

/-! ### Records -/

theorem valuesOf_cons_self (name : String) (v : Json) (members : List (String × Json)) :
    valuesOf [name] (.object ((name, v) :: members)) = v :: valuesOf [name] (.object members) := by
  unfold valuesOf
  exact List.filterMap_cons_some (if_pos (.head _))

/-- The values under a name are the same in any order and among members of other names. -/
theorem valuesOf_of_perm {name : String} {members others js : List (String × Json)}
    (hothers : ∀ m ∈ others, m.1 ≠ name) (h : members.Perm (others ++ js)) :
    (valuesOf [name] (.object members)).Perm (valuesOf [name] (.object js)) := by
  have hnone : others.filterMap (fun m => if m.1 ∈ [name] then some m.2 else none) = [] := by
    rw [List.filterMap_eq_nil_iff]
    intro m hm
    exact if_neg (by simpa using hothers m hm)
  have hvalues := h.filterMap fun m => if m.1 ∈ [name] then some m.2 else none
  rwa [List.filterMap_append, hnone] at hvalues

namespace Member

variable {fs : List Member} {vs js : List (String × Json)} {whole : Bool}

theorem Rewrites.name_mem (h : Rewrites fs vs js whole) :
    ∀ m ∈ js, m.1 ∈ fs.map Member.name := by
  induction h with
  | nil => simp
  | kept _ _ ih =>
    rintro m (_ | ⟨_, hm⟩)
    · exact .head _
    · exact .tail _ (ih m hm)
  | leftOut _ ih => exact fun m hm => .tail _ (ih m hm)
  | missing _ ih => exact fun m hm => .tail _ (ih m hm)

theorem Rewrites.valuesOf_eq_nil {name : String} (h : Rewrites fs vs js whole)
    (hname : name ∉ fs.map Member.name) : valuesOf [name] (.object js) = [] := by
  unfold valuesOf
  rw [List.filterMap_eq_nil_iff]
  intro m hm
  refine if_neg fun hmem => hname ?_
  rw [← List.mem_singleton.1 hmem]
  exact h.name_mem m hm

section Reading

variable {α β : Type} {read? : Json → Option α} {r : Rewriting} {v : Json} {a : α}
  {k : α → Json → Option β} {x : β} {name : String}

theorem ReadAs.nil : ReadAs (fun _ => some x) [] [] x := by
  refine ⟨.nil, ?_⟩
  intro _ _ _ _ hrewrites _ _ _
  cases hrewrites
  rfl

/-- What stands under the name of the first member, and what comes of the members after it. -/
theorem ReadAs.head_cases {read? : Json → Option β} {absent : Option Json}
    {others members : List (String × Json)} (h : ReadAs read? fs vs x)
    (hrewrites : Rewrites (⟨name, absent, r⟩ :: fs) ((name, v) :: vs) js whole)
    (hnodup : (name :: fs.map Member.name).Nodup)
    (hothers : ∀ m ∈ others, m.1 ∉ name :: fs.map Member.name)
    (hperm : members.Perm (others ++ js)) :
    (∃ j here rest, valuesOf [name] (.object members) = [j] ∧ r v j here ∧
      whole = (here && rest) ∧ read? (.object members) = if rest then some x else none) ∨
    valuesOf [name] (.object members) = [] ∧
      (absent = some v ∧ (read? (.object members) = if whole then some x else none) ∨
        absent = none ∧ whole = false) := by
  obtain ⟨hname, hnodup⟩ := List.nodup_cons.1 hnodup
  have hvalues := valuesOf_of_perm (fun m hm h => hothers m hm (h ▸ .head _)) hperm
  have hothers : ∀ m ∈ others, m.1 ∉ fs.map Member.name := fun m hm h => hothers m hm (.tail _ h)
  cases hrewrites with
  | @kept _ _ _ _ j here rest _ _ js hj hrest =>
    left
    rw [valuesOf_cons_self, hrest.valuesOf_eq_nil hname] at hvalues
    refine ⟨j, here, rest, List.perm_singleton.1 hvalues, hj, rfl, ?_⟩
    -- To the members after it this one is one more that nobody asks for.
    rw [List.append_cons] at hperm
    apply h.reads hrest hnodup _ hperm
    intro m hm
    obtain hm | hm := List.mem_append.1 hm
    · exact hothers m hm
    · rw [List.mem_singleton.1 hm]
      exact hname
  | leftOut hrest =>
    right
    rw [hrest.valuesOf_eq_nil hname] at hvalues
    exact ⟨List.perm_nil.1 hvalues, .inl ⟨rfl, h.reads hrest hnodup hothers hperm⟩⟩
  | missing hrest =>
    right
    rw [hrest.valuesOf_eq_nil hname] at hvalues
    exact ⟨List.perm_nil.1 hvalues, .inr ⟨rfl, rfl⟩⟩

/-- A member that has to be there, and then the others. -/
theorem ReadAs.required (hv : ReadsAs read? r v a) (hk : ReadAs (k a) fs vs x) :
    ReadAs (fun j => j.required? name read? >>= fun a => k a j) (.required name r :: fs)
      ((name, v) :: vs) x := by
  refine ⟨.kept hv.refl hk.refl, ?_⟩
  intro js others members whole hrewrites hnodup hothers hperm
  show required? _ _ _ >>= _ = _
  unfold required? requiredAs?
  obtain ⟨j, here, rest, hvalues, hj, rfl, hrest⟩ | ⟨hvalues, ⟨hnone, -⟩ | ⟨-, rfl⟩⟩ :=
    hk.head_cases hrewrites hnodup hothers hperm
  · rw [hvalues]
    show read? j >>= _ = _
    rw [hv.reads hj]
    cases here with
    | false => rfl
    | true => exact hrest
  · exact nomatch hnone
  · rw [hvalues]
    rfl

/-- A member whose absence is read as its default is, and then the others. -/
theorem ReadAs.orElse {d : Json} {absent : α} (hv : ReadsAs read? r v a)
    (hd : read? d = some absent) (hk : ReadAs (k a) fs vs x) :
    ReadAs (fun j => j.orElse? name absent read? >>= fun a => k a j) (⟨name, some d, r⟩ :: fs)
      ((name, v) :: vs) x := by
  refine ⟨.kept hv.refl hk.refl, ?_⟩
  intro js others members whole hrewrites hnodup hothers hperm
  show orElse? _ _ _ _ >>= _ = _
  unfold orElse?
  obtain ⟨j, here, rest, hvalues, hj, rfl, hrest⟩ | ⟨hvalues, ⟨hsome, hrest⟩ | ⟨hnone, -⟩⟩ :=
    hk.head_cases hrewrites hnodup hothers hperm
  · rw [hvalues]
    show read? j >>= _ = _
    rw [hv.reads hj]
    cases here with
    | false => rfl
    | true => exact hrest
  · -- the member is left out, and its absence stands for what it holds
    obtain rfl : d = v := Option.some.inj hsome
    obtain rfl : a = absent := Option.some.inj (hv.read_self.symm.trans hd)
    rw [hvalues]
    exact hrest
  · exact nomatch hnone

/-- A member that may be absent or null, and then the others. -/
theorem ReadAs.optional {o : Option α} {k : Option α → Json → Option β}
    (hv : ReadsAs (nullable? read?) (.nullable r) v o) (hk : ReadAs (k o) fs vs x) :
    ReadAs (fun j => j.optional? name read? >>= fun o => k o j)
      (.optional name r :: fs) ((name, v) :: vs) x :=
  .orElse hv rfl hk

/-- What is made of what is read. -/
theorem ReadAs.map {y : α} (g : α → β) (h : ReadAs read? fs vs y) :
    ReadAs (fun j => read? j >>= fun a => some (g a)) fs vs (g y) := by
  refine ⟨h.refl, ?_⟩
  intro js others members whole hrewrites hnodup hothers hperm
  show read? _ >>= _ = _
  rw [h.reads hrewrites hnodup hothers hperm]
  cases whole <;> rfl

/-- Members stand in an object. -/
theorem ReadAs.guarded {read? : Json → Option β} (h : ReadAs read? fs vs x) :
    ReadAs (fun j => guard j.isObject >>= fun _ => read? j) fs vs x := ⟨h.refl, h.reads⟩

end Reading

end Member

theorem readsAs_record {α : Type} {read? : Json → Option α} {fs : List Member}
    {vs : List (String × Json)} {x : α} (hnodup : (fs.map Member.name).Nodup)
    (h : Member.ReadAs read? fs vs x) : ReadsAs read? (.record fs) (.object vs) x := by
  refine ⟨.intro h.refl (by simp) (List.Perm.refl ([] ++ vs)), ?_⟩
  rintro _ _ ⟨hrewrites, hothers, hperm⟩
  exact h.reads hrewrites hnodup hothers hperm

end FluentMerge.Json
