import FluentMerge.Proofs.Document.Composition
import FluentMerge.Proofs.Document.Names

/-!
# The document of one text behind another

Where one text ends with a line and the other begins with an entry, the document of both is that of
the first and then that of the second, moved by the length of the first (`parse_append`). Only the
reasons for junk may change: junk is read up to a fault, and what stands behind the first text can
be another fault than the end of the text is.
-/

namespace FluentMerge

open Read
open Text (byteLength)

/-! ## Moving entries -/

/-- The place `n` bytes further on. -/
def Span.shift (s : Span) (n : Nat) : Span := ⟨s.start + n, s.stop + n⟩

/-- The comment `n` bytes further on. -/
def Comment.shift (c : Comment) (n : Nat) : Comment := { c with span := c.span.map (·.shift n) }

/-- The entry `n` bytes further on, together with its comment. -/
def Entry.shift (e : Entry) (n : Nat) : Entry :=
  match e with
  | .message m =>
    .message { m with comment := m.comment.map (·.shift n), span := m.span.map (·.shift n) }
  | .term t => .term { t with comment := t.comment.map (·.shift n), span := t.span.map (·.shift n) }
  | .comment level c => .comment level (c.shift n)
  | .junk j => .junk { j with span := j.span.map (·.shift n) }

/-- The entry with the text of each reason for junk left out. -/
def Entry.withoutReasons : Entry → Entry
  | .junk j => .junk { j with annotations := j.annotations.map fun _ => "" }
  | e => e

@[simp] theorem Entry.shift_zero (e : Entry) : e.shift 0 = e := by
  have hspan (s : Option Span) : s.map (·.shift 0) = s := by cases s <;> rfl
  have hcomment (c : Comment) : c.shift 0 = c := by rw [Comment.shift, hspan]
  have hcomment? (c : Option Comment) : c.map (·.shift 0) = c := by
    cases c with
    | none => rfl
    | some c => rw [Option.map_some, hcomment]
  cases e with
  | message m => simp only [shift, hspan, hcomment?]
  | term t => simp only [shift, hspan, hcomment?]
  | comment level c => simp only [shift, hcomment]
  | junk j => simp only [shift, hspan]

/-- The comment that an entry was given. -/
def Entry.comment? : Entry → Option Comment
  | .message m => m.comment
  | .term t => t.comment
  | _ => none

theorem Entry.shift_withSpan {e : Entry} (h : e.comment? = none) (s : Span) (n : Nat) :
    (e.withSpan s).shift n = e.withSpan (s.shift n) := by
  cases e with
  | message m => simp_all [comment?, withSpan, shift]
  | term t => simp_all [comment?, withSpan, shift]
  | comment level c => rfl
  | junk j => rfl

/-- An entry is read without the comment above it. -/
theorem Read.entry_comment? {s rest : List Char} {e : Entry}
    (h : outcome (entry s) = .ok (e, rest)) : e.comment? = none := by
  cases entryRead_of_entry h with
  | comment hcomment =>
    obtain ⟨level, lines, -, -, rfl⟩ := comment_cases hcomment
    rfl
  | term hterm =>
    obtain ⟨u, -, -, hnone⟩ := term_cases hterm
    exact hnone
  | message hc hmessage =>
    obtain ⟨u, -, -, -, hnone⟩ := message_cases hmessage
    exact hnone

theorem nextEntry_shift (start n : Nat) (s : List Char) :
    nextEntry (start + n) s = ((nextEntry start s).1.shift n, (nextEntry start s).2) := by
  unfold nextEntry
  split
  · next r h =>
    obtain ⟨e, he, h⟩ := bind_eq_ok_iff.1 h
    obtain ⟨close, -, h⟩ := bind_eq_ok_iff.1 h
    cases h
    have hcomment : e.value.comment? = none :=
      entry_comment? (outcome_eq_ok_iff.2 ⟨e, he, rfl, rfl⟩)
    simp only [Reading.value_within, Reading.value_map, Reading.rest_within, Reading.rest_map,
      Entry.shift_withSpan hcomment, Span.shift, Nat.add_right_comm]
  · simp only [Entry.shift, Option.map_some, Span.shift, Nat.add_right_comm]

/-- The entries of a text that begins further on are as much further on. -/
theorem separateEntries_shift (offset n : Nat) (s : List Char) :
    separateEntries (offset + n) s = (separateEntries offset s).map (·.shift n) := by
  induction hlength : s.length using Nat.strongRecOn generalizing s offset with
  | ind m ih =>
    subst hlength
    cases hs : (skipBlankLines s).2 with
    | nil => rw [separateEntries_of_nil hs, separateEntries_of_nil hs, List.map_nil]
    | cons c t =>
      rw [separateEntries_of_cons hs rfl, separateEntries_of_cons hs rfl, List.map_cons,
        Nat.add_right_comm offset n, nextEntry_shift]
      have hle := (skipBlankLines_suffix s).length_le
      rw [hs, List.length_cons] at hle
      have hshorter := Nat.lt_of_lt_of_le
        (nextEntry_shorter (offset + byteLength (consumed s (c :: t))) c t) hle
      dsimp only
      rw [Nat.add_right_comm _ n, ih _ hshorter _ _ rfl]

/-! ## Comments and the entries below them -/

/-- Giving comments to the entries below them goes with what is done to each entry, if it leaves
what is a comment a comment and what is none none, and goes with giving one. -/
theorem attachComments_map {f : Entry → Entry} {g : Comment → Comment}
    (hcomment : ∀ c, f (.comment .entry c) = .comment .entry (g c))
    (hother : ∀ e, (∀ c, e ≠ .comment .entry c) → ∀ c, f e ≠ .comment .entry c)
    (hattach : ∀ c e, (g c).attachTo? (f e) = (c.attachTo? e).map f) (es : List Entry) :
    attachComments (es.map f) = (attachComments es).map f := by
  fun_induction attachComments es with
  | case1 => rfl
  | case2 c below rest e he ih =>
    have hbelow : (g c).attachTo? (f below) = some (f e) := by rw [hattach, he, Option.map_some]
    rw [List.map_cons, List.map_cons, hcomment, attachComments, hbelow, List.map_cons, ← ih]
  | case3 c below rest he ih =>
    have hbelow : (g c).attachTo? (f below) = none := by rw [hattach, he, Option.map_none]
    rw [List.map_cons, List.map_cons, hcomment, attachComments, hbelow, List.map_cons, hcomment,
      ← ih, List.map_cons]
  | case4 e rest hlast ih =>
    rw [List.map_cons, List.map_cons, ← ih, attachComments]
    intro c below rest' he hrest
    cases rest with
    | nil => cases hrest
    | cons below rest =>
      exact hother e (fun c' he' => hlast c' below rest he' rfl) c he

theorem Comment.attachTo?_shift (c : Comment) (e : Entry) (n : Nat) :
    (c.shift n).attachTo? (e.shift n) = (c.attachTo? e).map (·.shift n) := by
  have habove (below : Option Span) :
      (c.shift n).isDirectlyAbove (below.map (·.shift n)) = c.isDirectlyAbove below := by
    rcases c with ⟨content, _ | above⟩
    · rfl
    cases below with
    | none => rfl
    | some below =>
      simp only [shift, isDirectlyAbove, Span.shift, Option.map_some, Nat.add_right_comm _ n 1,
        Nat.add_right_cancel_iff, beq_eq_beq]
  have hspan (below : Option Span) :
      (c.shift n).spanWith (below.map (·.shift n)) = (c.spanWith below).map (·.shift n) := by
    rcases c with ⟨content, _ | above⟩ <;> cases below <;> rfl
  cases e with
  | message m =>
    simp only [Entry.shift, attachTo?, habove, hspan]
    split <;> rfl
  | term t =>
    simp only [Entry.shift, attachTo?, habove, hspan]
    split <;> rfl
  | comment level c' => rfl
  | junk j => rfl

theorem attachComments_shift (es : List Entry) (n : Nat) :
    attachComments (es.map (·.shift n)) = (attachComments es).map (·.shift n) := by
  apply attachComments_map (g := (·.shift n))
  · intro c
    rfl
  · intro e he c hc
    cases e with
    | comment level c' =>
      cases hc
      exact he c' rfl
    | _ => cases hc
  · exact fun c e => c.attachTo?_shift e n

theorem attachComments_withoutReasons (es : List Entry) :
    attachComments (es.map Entry.withoutReasons) =
      (attachComments es).map Entry.withoutReasons := by
  apply attachComments_map (g := id)
  · intro c
    rfl
  · intro e he c hc
    cases e with
    | junk j => cases hc
    | _ => exact he c hc
  · intro c e
    cases e with
    | message m =>
      simp only [Entry.withoutReasons, id, Comment.attachTo?]
      split <;> rfl
    | term t =>
      simp only [Entry.withoutReasons, id, Comment.attachTo?]
      split <;> rfl
    | comment level c' => rfl
    | junk j => rfl

/-- Comments are given to entries on either side of a place where no comment ends. -/
theorem attachComments_append {es : List Entry} (h : ∀ c, es.getLast? ≠ some (.comment .entry c))
    (fs : List Entry) :
    attachComments (es ++ fs) = attachComments es ++ attachComments fs := by
  have htail {e : Entry} {rest : List Entry} (h : ∀ c, (e :: rest).getLast? ≠
      some (.comment .entry c)) (c : Comment) : rest.getLast? ≠ some (.comment .entry c) := by
    intro hrest
    exact h c (by rw [List.getLast?_cons, hrest, Option.getD_some])
  fun_induction attachComments es with
  | case1 => rfl
  | case2 c below rest e he ih =>
    rw [List.cons_append, List.cons_append, attachComments, he, List.cons_append,
      ih (htail (htail h))]
  | case3 c below rest he ih =>
    rw [List.cons_append, List.cons_append, attachComments, he, List.cons_append,
      ← List.cons_append, ih (htail h)]
  | case4 e rest hlast ih =>
    rw [List.cons_append, attachComments, ih (htail h), List.cons_append]
    intro c below rest' he hrest
    cases rest with
    | nil => exact h c (by rw [he]; rfl)
    | cons below rest => exact hlast c below rest he rfl

/-- A comment at the end is given to no entry. -/
theorem getLast?_attachComments {es : List Entry} {level : CommentLevel} {c : Comment}
    (h : es.getLast? = some (.comment level c)) :
    (attachComments es).getLast? = some (.comment level c) := by
  have hlast {e : Entry} {rest : List Entry} (hrest : rest ≠ [])
      (h : (e :: rest).getLast? = some (.comment level c)) :
      rest.getLast? = some (.comment level c) := by
    rwa [List.getLast?_cons_of_ne_nil hrest] at h
  rw [List.getLast?_eq_some_iff]
  fun_induction attachComments es with
  | case1 => cases h
  | case2 c' below rest e he ih =>
    have h := hlast (List.cons_ne_nil _ _) h
    -- the entry that gets a comment is none, so the comment at the end is further on
    have hrest : rest ≠ [] := by
      rintro rfl
      cases h
      cases he
    obtain ⟨above, ih⟩ := ih (hlast hrest h)
    exact ⟨e :: above, by rw [ih, List.cons_append]⟩
  | case3 c' below rest he ih =>
    obtain ⟨above, ih⟩ := ih (hlast (List.cons_ne_nil _ _) h)
    exact ⟨.comment .entry c' :: above, by rw [ih, List.cons_append]⟩
  | case4 e rest _ ih =>
    cases rest with
    | nil =>
      cases h
      exact ⟨[], rfl⟩
    | cons below rest =>
      obtain ⟨above, ih⟩ := ih (hlast (List.cons_ne_nil _ _) h)
      exact ⟨e :: above, by rw [ih, List.cons_append]⟩

/-! ## Texts one behind the other -/

/-- How a text begins with an entry: with the mark of a comment, or with the name of a message or a
term and the mark after it. -/
inductive BeginsEntry : List Char → Prop
  | comment (t : List Char) : BeginsEntry ('#' :: t)
  | message {id : String} (hid : IsName id) (n : Nat) (t : List Char) :
      BeginsEntry (id.toList ++ List.replicate n ' ' ++ '=' :: t)
  | term {id : String} (hid : IsName id) (n : Nat) (t : List Char) :
      BeginsEntry ('-' :: id.toList ++ List.replicate n ' ' ++ '=' :: t)

theorem BeginsEntry.opens {t : List Char} (h : BeginsEntry t) :
    Opens t ∧ t.head? ≠ some '.' := by
  have hspaces (n : Nat) : ∀ d ∈ List.replicate n ' ', d = ' ' :=
    fun d hd => List.eq_of_mem_replicate hd
  cases h with
  | comment t => exact ⟨.comment t, by simp⟩
  | message hid n t =>
    obtain ⟨c, name, hname, hc, hd⟩ := hid
    rw [hname]
    have hopens := Opens.message t hc hd (hspaces n)
    refine ⟨by simpa using hopens, ?_⟩
    rintro hhead
    cases hhead
    cases hc
  | term hid n t =>
    obtain ⟨c, name, hname, hc, hd⟩ := hid
    rw [hname]
    have hopens := Opens.term t hc hd (hspaces n)
    exact ⟨by simpa using hopens, by simp⟩

/-- Whether an entry, if it is junk, is given with one reason. -/
def Entry.HasOneReason : Entry → Prop
  | .junk j => j.annotations.length = 1
  | _ => True

theorem separateEntries_hasOneReason (offset : Nat) (s : List Char) :
    ∀ e ∈ separateEntries offset s, e.HasOneReason := by
  apply forall_mem_separateEntries
  · intro t _ e rest span h
    have hkind := entry_kind h
    cases e with
    | junk j => exact absurd rfl hkind
    | _ => trivial
  · intro content reason span
    rfl

/-- Entries that differ only in reasons for junk, of which each junk has one, are the same without
the texts of these reasons. -/
theorem Entry.withoutReasons_congr {e e' : Entry} (he : e.HasOneReason) (he' : e'.HasOneReason)
    (h : e.unannotated = e'.unannotated) : e.withoutReasons = e'.withoutReasons := by
  cases e with
  | junk j =>
    cases e' with
    | junk j' =>
      obtain ⟨reason, hreason⟩ := List.length_eq_one_iff.1 he
      obtain ⟨reason', hreason'⟩ := List.length_eq_one_iff.1 he'
      simp only [unannotated, Entry.junk.injEq, Junk.mk.injEq, true_and] at h
      simp only [withoutReasons, hreason, hreason', h, List.map_cons, List.map_nil]
    | _ => cases h
  | _ =>
    cases e' with
    | junk j' => cases h
    | _ => exact h

/-- Where no comment ends the entries above, joining is putting one behind the other. -/
theorem Joined.map_withoutReasons {es fs gs : List Entry} (h : Joined es fs gs)
    (hlast : ∀ level c, es.getLast? ≠ some (.comment level c))
    (hes : ∀ e ∈ es, e.HasOneReason) (hgs : ∀ e ∈ gs, e.HasOneReason) :
    gs.map Entry.withoutReasons = (es ++ fs).map Entry.withoutReasons := by
  induction h with
  | nil fs => rfl
  | @cons e e' es fs gs he hjoined ih =>
    rw [List.forall_mem_cons] at hes hgs
    have hlast' : ∀ level c, es.getLast? ≠ some (.comment level c) := by
      intro level c hc
      exact hlast level c (by rw [List.getLast?_cons, hc, Option.getD_some])
    rw [List.map_cons, List.cons_append, List.map_cons, ih hlast' hes.2 hgs.2,
      Entry.withoutReasons_congr hgs.1 hes.1 he]
  | comment level above below whole fs => exact absurd rfl (hlast level above)

/-- The entries of two texts one behind the other, before comments are given to entries. -/
theorem separateEntries_append {s t : List Char} (hs : AtLineStart s)
    (hlast : ∀ level c, (separateEntries 0 s).getLast? ≠ some (.comment level c))
    (ht : BeginsEntry t) :
    (separateEntries 0 (s ++ t)).map Entry.withoutReasons =
      (separateEntries 0 s ++ (separateEntries 0 t).map (·.shift (byteLength s))).map
        Entry.withoutReasons := by
  rcases List.eq_nil_or_concat s with rfl | ⟨line, c, hline⟩
  · have hstay : (·.shift (byteLength []) : Entry → Entry) = id := funext Entry.shift_zero
    rw [separateEntries_of_nil (s := []) (by rw [skipBlankLines_of_nil rfl]), List.nil_append,
      List.nil_append, hstay, List.map_id]
  · rw [List.concat_eq_append] at hline
    subst hline
    obtain rfl : c = '\n' := hs c (by rw [List.getLast?_concat, Option.mem_def])
    have hjoined := separateEntries_joined ht.opens.1 ht.opens.2 0 line
    rw [List.append_cons line '\n' t, separateEntries_shift] at hjoined
    exact hjoined.map_withoutReasons hlast (separateEntries_hasOneReason 0 _)
      (separateEntries_hasOneReason 0 _)

/-- Error recovery is local. Behind a text that is empty or ends with a line, and whose last entry
is no comment, a text that begins with an entry is read as if it stood alone, and the text above it
as if nothing stood below. -/
theorem parse_append {a b : String} (ha : AtLineStart a.toList)
    (hlast : ∀ level c, (Document.parse a).entries.getLast? ≠ some (.comment level c))
    (hb : BeginsEntry b.toList) :
    (Document.parse (a ++ b)).entries.map Entry.withoutReasons =
      ((Document.parse a).entries ++
        (Document.parse b).entries.map (·.shift (byteLength a.toList))).map
          Entry.withoutReasons := by
  -- a comment that ends the separate entries would end the document as well
  have hlast' : ∀ level c, (separateEntries 0 a.toList).getLast? ≠ some (.comment level c) :=
    fun level c hc => hlast level c (getLast?_attachComments hc)
  have hkept : ∀ c, ((separateEntries 0 a.toList).map Entry.withoutReasons).getLast? ≠
      some (.comment .entry c) := by
    intro c hc
    rw [List.getLast?_map] at hc
    obtain ⟨e, he, hec⟩ := Option.map_eq_some_iff.1 hc
    cases e with
    | comment level c' => exact hlast' level c' he
    | _ => cases hec
  calc (Document.parse (a ++ b)).entries.map Entry.withoutReasons
      = attachComments ((separateEntries 0 (a.toList ++ b.toList)).map Entry.withoutReasons) := by
        rw [Document.parse, String.toList_append, attachComments_withoutReasons]
    _ = attachComments ((separateEntries 0 a.toList).map Entry.withoutReasons) ++
          attachComments (((separateEntries 0 b.toList).map
            (·.shift (byteLength a.toList))).map Entry.withoutReasons) := by
        rw [separateEntries_append ha hlast' hb, List.map_append, attachComments_append hkept]
    _ = ((Document.parse a).entries ++
          (Document.parse b).entries.map (·.shift (byteLength a.toList))).map
            Entry.withoutReasons := by
        rw [attachComments_withoutReasons, attachComments_withoutReasons, attachComments_shift,
          ← List.map_append, Document.parse, Document.parse]

/-- A call that is left open takes nothing of the message below it. -/
theorem parse_append_openCall :
    (Document.parse ("a = \x7bF(\n" ++ "b = Two\n")).entries.map Entry.withoutReasons =
      [.junk ⟨"a = \x7bF(\n", [""], some ⟨0, 8⟩⟩,
        .message ⟨"b", some ⟨[.text "Two"]⟩, [], none, some ⟨8, 15⟩⟩] := by
  have hname : IsName "b" := ⟨'b', [], rfl, rfl, by simp⟩
  have hb : BeginsEntry "b = Two\n".toList := .message hname 1 " Two\n".toList
  rw [parse_append (by simp [AtLineStart]) (fun level c => ?_) hb]
  · decide +kernel
  · have hone : (Document.parse "a = \x7bF(\n").entries.getLast?.map Entry.kind = some .junk := by
      decide +kernel
    intro hc
    rw [hc] at hone
    cases hone

end FluentMerge
