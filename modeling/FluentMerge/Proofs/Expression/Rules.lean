import FluentMerge.Proofs.Document.Outcome
import FluentMerge.Proofs.Expression.Tree

/-!
# Readers that decide rules

A reader decides a rule on a text if it comes to a value where the rule is kept and to a fault where
it is broken (`Decides`). Reading in turn decides all the rules of the readers in it
(`Decides.bind`). The rules for expressions are brought here into the form in which the readers ask
for them, one argument and one variant after the other.
-/

namespace FluentMerge

open Read

/-! ## Deciding -/

/-- Whether a reader decides a rule: where it is kept the reader comes to the value `v`, and where
it is broken to a fault. -/
inductive Decides {β : Type} (rule : Prop) (v : β) : Except SyntaxError β → Prop
  | kept : rule → Decides rule v (.ok v)
  | broken (e : SyntaxError) : ¬rule → Decides rule v (.error e)

namespace Decides

variable {α β : Type} {rule rule' : Prop} {a : α} {b : β}

/-- A reader that always comes to its value decides the rule that asks for nothing. -/
theorem of_eq {x : Except SyntaxError α} (h : x = .ok a) : Decides True a x :=
  h ▸ .kept trivial

theorem congr {x : Except SyntaxError α} (h : Decides rule a x) (hrule : rule ↔ rule') :
    Decides rule' a x := by
  rwa [← propext hrule]

/-- What is read in turn decides both rules. The second reader comes only where the first rule is
kept. -/
theorem bind {x : Except SyntaxError α} {f : α → Except SyntaxError β} (h : Decides rule a x)
    (h' : Decides rule' b (f a)) : Decides (rule ∧ rule') b (x >>= f) := by
  cases h with
  | kept hrule => exact h'.congr (and_iff_right hrule).symm
  | broken e hrule => exact .broken e fun hboth => hrule hboth.1

theorem map {x : Except SyntaxError α} (h : Decides rule a x) (f : α → β) :
    Decides rule (f a) (f <$> x) := by
  cases h with
  | kept hrule => exact .kept hrule
  | broken e hrule => exact .broken e hrule

/-- A check decides the rule whose faults it gives. -/
theorem refuse {e : Option SyntaxError} (h : e = none ↔ rule) :
    Decides rule () (Read.refuse e) := by
  cases e with
  | none => exact .kept (h.1 rfl)
  | some e => exact .broken e fun hrule => Option.some_ne_none e (h.2 hrule)

/-- Refusing decides a rule, whatever it comes to where it does not. -/
theorem refuse_ok {e : Option SyntaxError} (h : e = none ↔ rule) (b : β) :
    Decides rule b (Read.refuse e >>= fun _ => .ok b) := by
  have hdone : Decides True b (.ok b) := .of_eq rfl
  exact ((refuse h).bind hdone).congr (and_iff_left trivial)

/-- Where the rule is kept the value is read. -/
theorem eq_ok {x : Except SyntaxError α} (h : Decides rule a x) (hrule : rule) : x = .ok a := by
  cases h with
  | kept _ => rfl
  | broken e hbroken => exact absurd hrule hbroken

/-- Where it is broken there is a fault, which the rule does not tell. -/
theorem eq_error {x : Except SyntaxError α} (h : Decides rule a x) (hrule : ¬rule) :
    ∃ e, x = .error e := by
  cases h with
  | kept hkept => exact absurd hkept hrule
  | broken e _ => exact ⟨e, rfl⟩

end Decides

/-! ## Operands -/

namespace InlineExpression

/-- What an expression is to the rules for selectors, arguments and placeables. -/
def operand : InlineExpression → Operand
  | .string _ | .number _ => .literal
  | .variableReference _ => .variableReference
  | .messageReference id access => .messageReference id.text access.isSome
  | .termReference _ access | .termCall _ access _ => .termReference access.isSome
  | .functionCall _ _ => .functionCall
  | .placeable _ => .placeable

theorem operand_eq_literal_iff (e : InlineExpression) : e.operand = .literal ↔ e.IsLiteral := by
  cases e <;> simp [operand, IsLiteral]

/-- An operand is refused as a selector just where the rule for selectors forbids it. -/
theorem selectorFault?_operand (e : InlineExpression) :
    e.operand.selectorFault? = none ↔ e.CanSelect := by
  cases e with
  | messageReference id access => cases access <;> simp [operand, CanSelect, Operand.selectorFault?]
  | termReference id access => cases access <;> simp [operand, CanSelect, Operand.selectorFault?]
  | termCall id access args => cases access <;> simp [operand, CanSelect, Operand.selectorFault?]
  | _ => simp [operand, CanSelect, Operand.selectorFault?]

/-- In a placeable on its own only the attribute of a term is refused. -/
theorem placeableFault?_operand (e : InlineExpression) :
    e.operand.placeableFault? = none ↔ ¬e.IsTermAttribute := by
  cases e with
  | termReference id access =>
    cases access <;> simp [operand, IsTermAttribute, Operand.placeableFault?]
  | termCall id access args =>
    cases access <;> simp [operand, IsTermAttribute, Operand.placeableFault?]
  | _ => simp [operand, IsTermAttribute, Operand.placeableFault?]

end InlineExpression

/-! ## Arguments in turn -/

namespace Argument

/-- Whether an argument may stand behind arguments with the names `named`. -/
def Fits (named : List String) : Argument → Prop
  | .positional _ => named = []
  | .named id value => id.text ∉ named ∧ value.IsLiteral

/-- The names of the arguments so far, with this one. -/
def namesAfter (named : List String) : Argument → List String
  | .positional _ => named
  | .named id _ => id.text :: named

end Argument

/-- What holds of arguments holds without the first of them. -/
theorem ArgumentRules.tail {a : Argument} {args : List Argument} (h : ArgumentRules (a :: args)) :
    ArgumentRules args where
  namedLast := h.namedLast.of_cons
  differentNames := h.differentNames.sublist ((List.sublist_cons_self a args).filterMap _)
  literalValues id value hmem := h.literalValues id value (List.mem_cons_of_mem a hmem)

/-- The rules for the arguments that follow others with the names `named`. -/
structure ArgumentRulesAfter (named : List String) (args : List Argument) : Prop where
  rules : ArgumentRules args
  namedLast : named ≠ [] → ∀ a ∈ args, a.name?.isSome
  newNames : ∀ a ∈ args, ∀ name ∈ a.name?, name ∉ named

theorem argumentRulesAfter_nil (named : List String) : ArgumentRulesAfter named [] where
  rules := ⟨.nil, List.nodup_nil, by simp⟩
  namedLast := by simp
  newNames := by simp

/-- In front of the first argument no name is taken. -/
theorem argumentRulesAfter_none_iff {args : List Argument} :
    ArgumentRulesAfter [] args ↔ ArgumentRules args :=
  ⟨fun h => h.rules, fun h => ⟨h, by simp, by simp⟩⟩

/-- The rules can be asked for one argument after the other. -/
theorem argumentRulesAfter_cons_iff {named : List String} {a : Argument} {args : List Argument} :
    ArgumentRulesAfter named (a :: args) ↔
      a.Fits named ∧ ArgumentRulesAfter (a.namesAfter named) args := by
  cases a with
  | positional value =>
    constructor
    · intro h
      -- a positional argument has no name, so no named one can be before it
      have hnone : named = [] := by
        cases named with
        | nil => rfl
        | cons name named => cases h.namedLast (List.cons_ne_nil _ _) _ List.mem_cons_self
      refine ⟨hnone, h.rules.tail, fun hne => absurd hnone hne, ?_⟩
      exact fun a ha => h.newNames a (List.mem_cons_of_mem _ ha)
    · rintro ⟨rfl, h⟩
      refine ⟨⟨?_, ?_, ?_⟩, fun hne => absurd rfl hne, by simp⟩
      · exact .cons (by simp [Argument.name?]) h.rules.namedLast
      · rw [List.filterMap_cons_none rfl]
        exact h.rules.differentNames
      · intro id value' hmem
        rcases List.mem_cons.1 hmem with heq | hmem
        · cases heq
        · exact h.rules.literalValues id value' hmem
  | named id value =>
    -- a named argument has to be new, and all behind it have to have names
    have hfirst : (Argument.named id value).name? = some id.text := rfl
    constructor
    · intro h
      have hnew : id.text ∉ named := h.newNames _ List.mem_cons_self id.text rfl
      have hdifferent := h.rules.differentNames
      rw [List.filterMap_cons_some hfirst, List.nodup_cons, List.mem_filterMap] at hdifferent
      refine ⟨⟨hnew, h.rules.literalValues id value List.mem_cons_self⟩, h.rules.tail, ?_, ?_⟩
      · exact fun _ a ha => (List.pairwise_cons.1 h.rules.namedLast).1 a ha rfl
      · intro a ha name hname hmem
        rcases List.mem_cons.1 hmem with rfl | hmem
        · exact hdifferent.1 ⟨a, ha, hname⟩
        · exact h.newNames a (List.mem_cons_of_mem _ ha) name hname hmem
    · rintro ⟨⟨hnew, hliteral⟩, h⟩
      have hsome : ∀ a ∈ args, a.name?.isSome := h.namedLast (List.cons_ne_nil _ _)
      refine ⟨⟨?_, ?_, ?_⟩, fun _ => ?_, ?_⟩
      · exact .cons (fun a ha _ => hsome a ha) h.rules.namedLast
      · rw [List.filterMap_cons_some hfirst, List.nodup_cons, List.mem_filterMap]
        refine ⟨?_, h.rules.differentNames⟩
        rintro ⟨a, ha, hname⟩
        exact h.newNames a ha _ hname List.mem_cons_self
      · intro id' value' hmem
        rcases List.mem_cons.1 hmem with heq | hmem
        · cases heq
          exact hliteral
        · exact h.rules.literalValues id' value' hmem
      · exact List.forall_mem_cons.2 ⟨rfl, hsome⟩
      · rw [List.forall_mem_cons]
        refine ⟨fun name hname => ?_, fun a ha name hname hmem => ?_⟩
        · cases hname
          exact hnew
        · exact h.newNames a ha name hname (List.mem_cons_of_mem _ hmem)

/-! ## Variants in turn -/

/-- How many default variants there have been. -/
def VariantsSeen.defaults : VariantsSeen → Nat
  | .withDefault => 1
  | _ => 0

/-- A variant that is no default one does not count. -/
theorem VariantsSeen.defaults_addPlain (seen : VariantsSeen) :
    seen.addPlain.defaults = seen.defaults := by
  cases seen <;> rfl

/-- Another default variant may come while there has been none, and no further one behind it. -/
theorem VariantsSeen.defaults_default_iff (seen : VariantsSeen) (n : Nat) :
    seen.defaults + (n + 1) = 1 ↔
      seen ≠ .withDefault ∧ VariantsSeen.withDefault.defaults + n = 1 := by
  cases seen <;> simp [defaults]

/-- At the end there has to have been one default variant. -/
theorem VariantsSeen.endFault?_eq_none_iff (seen : VariantsSeen) :
    seen.endFault? = none ↔ seen.defaults = 1 := by
  cases seen <;> simp [endFault?, defaults]

end FluentMerge
