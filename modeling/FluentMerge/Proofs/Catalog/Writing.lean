import FluentMerge.Catalog.Line
import FluentMerge.Proofs.Text.Trimming
import FluentMerge.Text.Lines
import Mathlib.Data.List.TakeWhile

/-!
# Writing a catalog

A list of records can be written as a catalog in many ways. The comments of a record stand in any
order above its fields, a text is cut into as many quoted strings as one likes, blank lines stand
between records or do not, and lines of entries no longer in use stand anywhere. `WritesRecords` is
the relation between the records and all these texts.

Here each line that is written is read back (`ofText_of_writes`), and so are the lines of a text
(`lines_of_writesLines`).
-/

namespace FluentMerge

open Text (isWhite trim trimStart trimEnd trimEnd_append trimEnd_cons_of_not lines
  lines_append_cons lines_of_not_mem)

/-! ## Quoted strings -/

namespace Quoted

/-- A character as it is written between quotes. -/
def escape (c : Char) : List Char :=
  match c with
  | '\\' => ['\\', '\\']
  | '"' => ['\\', '"']
  | '\n' => ['\\', 'n']
  | '\t' => ['\\', 't']
  | '\r' => ['\\', 'r']
  | '\x07' => ['\\', 'a']
  | '\x08' => ['\\', 'b']
  | '\x0c' => ['\\', 'f']
  | '\x0b' => ['\\', 'v']
  | c => [c]

/-- A text between quotes. -/
def quote (v : String) : List Char := '"' :: (v.toList.flatMap escape ++ ['"'])

/-- A character is written behind a backslash, from which it is read back, or as it is. In no case
is a line end written. -/
theorem escape_cases (c : Char) :
    (∃ d, escape c = ['\\', d] ∧ d ≠ '\n' ∧ unescape d = [c]) ∨
      escape c = [c] ∧ c ≠ '\n' ∧ c ≠ '"' ∧ c ≠ '\\' := by
  unfold escape
  split
  case h_10 hslash hquote hline _ _ _ _ _ _ =>
    exact .inr ⟨rfl, hline, hquote, hslash⟩
  all_goals exact .inl ⟨_, rfl, by decide, rfl⟩

/-- The closing quote ends the text. -/
theorem body?_closed (s : List Char) : body? ('"' :: s) = some ([], s) := by
  unfold body?
  exact if_pos rfl

/-- Behind a backslash there is one character, and what it stands for is read. -/
theorem body?_escaped (d : Char) (s : List Char) :
    body? ('\\' :: d :: s) = (body? s).map fun r => (unescape d ++ r.1, r.2) := by
  rw [body?.eq_def]
  exact if_neg (by decide)

theorem body?_plain {c : Char} (hquote : c ≠ '"') (hslash : c ≠ '\\') (s : List Char) :
    body? (c :: s) = (body? s).map fun r => (c :: r.1, r.2) := by
  rw [body?.eq_def]
  exact (if_neg hquote).trans (if_neg hslash)

/-- Escaped characters are read back up to the closing quote. -/
theorem body?_escape (s rest : List Char) :
    body? (s.flatMap escape ++ '"' :: rest) = some (s, rest) := by
  induction s with
  | nil => exact body?_closed rest
  | cons c s ih =>
    rw [List.flatMap_cons, List.append_assoc]
    obtain ⟨d, hescape, -, hback⟩ | ⟨hescape, -, hquote, hslash⟩ := escape_cases c
    · rw [hescape, List.cons_append, List.singleton_append, body?_escaped, ih, hback]
      rfl
    · rw [hescape, List.singleton_append, body?_plain hquote hslash, ih]
      rfl

theorem trimEnd_quote (v : String) : trimEnd (quote v) = quote v := by
  rw [quote, ← List.cons_append]
  exact Text.trimEnd_concat_of_not (by decide)

theorem trim_quote (v : String) : trim (quote v) = quote v := by
  have hstart : trimStart (quote v) = quote v := Text.trimStart_cons_of_not (by decide)
  rw [trim, hstart, trimEnd_quote]

/-- Between a keyword and its text stands one space, which does not count. -/
theorem trim_space_quote (v : String) : trim (' ' :: quote v) = quote v := by
  have hstart : trimStart (' ' :: quote v) = quote v := by
    rw [trimStart, List.dropWhile_cons_of_pos (by decide)]
    exact Text.trimStart_cons_of_not (by decide)
  rw [trim, hstart, trimEnd_quote]

/-- What is written between quotes is read back, whatever white space is around them. -/
theorem unquote_of_trim {s : List Char} {v : String} (h : trim s = quote v) :
    unquote s = .ok v := by
  rw [unquote, h, quote]
  simp [body?_escape]

/-- A quoted string is on one line. -/
theorem not_mem_quote (v : String) : '\n' ∉ quote v := by
  have hescaped : '\n' ∉ v.toList.flatMap escape := by
    intro hmem
    obtain ⟨c, -, hc⟩ := List.mem_flatMap.1 hmem
    obtain ⟨d, hescape, hd, -⟩ | ⟨hescape, hline, -⟩ := escape_cases c
    · rw [hescape] at hc
      simp [hd.symm] at hc
    · rw [hescape] at hc
      simp [hline.symm] at hc
  simp [quote, hescaped]

end Quoted

/-! ## Lines -/

/-- The keyword of a field. -/
def Field.keyword : Field → String
  | .msgctxt => "msgctxt"
  | .msgid => "msgid"
  | .msgidPlural => "msgid_plural"
  | .msgstr form => "msgstr[" ++ toString form.val ++ "]"

/-- The mark of a kind of comments. -/
def NoteKind.mark : NoteKind → List Char
  | .translator => ['#']
  | .extracted => ['#', '.']
  | .reference => ['#', ':']
  | .flag => ['#', ',']
  | .previous => ['#', '|']

/-- The ways in which a line is written. The first translation of a record needs no number. -/
inductive CatalogLine.Writes : CatalogLine → List Char → Prop
  | blank {s : List Char} : (∀ c ∈ s, isWhite c = true) → '\n' ∉ s → Writes .blank s
  | obsolete {s : List Char} : '\n' ∉ s → Writes .obsolete ('#' :: '~' :: s)
  | comment {kind : NoteKind} {text : String} : trim text.toList = text.toList →
      '\n' ∉ text.toList → Writes (.comment kind text) (kind.mark ++ ' ' :: text.toList)
  | continuation (value : String) : Writes (.continuation value) (Quoted.quote value)
  | field (field : Field) (value : String) :
      Writes (.field field value) (field.keyword.toList ++ ' ' :: Quoted.quote value)
  | single (value : String) :
      Writes (.field (.msgstr 0) value) ("msgstr".toList ++ ' ' :: Quoted.quote value)

/-! ### Keywords -/

section Keywords

/-- The numeral of a translation. -/
def numeral (form : Fin 256) : List Char := Nat.toDigits 10 form

/-- A numeral is all digits, so it can neither have a sign nor close its bracket. -/
theorem isDigit_of_mem_numeral {form : Fin 256} {c : Char} (h : c ∈ numeral form) :
    c.isDigit = true :=
  Nat.isDigit_of_mem_toDigits (by decide) (by decide) h

theorem toList_keyword_msgstr (form : Fin 256) :
    (Field.msgstr form).keyword.toList = "msgstr[".toList ++ (numeral form ++ [']']) := by
  simp [Field.keyword, numeral]

/-- A numeral is read back as its number. The bound is the one of a byte, which the number keeps. -/
theorem pluralForm?_numeral (form : Fin 256) :
    CatalogLine.pluralForm? (numeral form) = some form := by
  have hsign : (numeral form).head? ≠ some '+' := fun h =>
    absurd (isDigit_of_mem_numeral (List.mem_of_head? h)) (by decide)
  have hdigits : numeral form ≠ [] ∧ (numeral form).all Char.isDigit = true :=
    ⟨Nat.toDigits_ne_nil, List.all_eq_true.2 fun c => isDigit_of_mem_numeral⟩
  have hvalue : CatalogLine.digitsValue (numeral form) = form := Nat.ofDigitChars_ten_toDigits
  rw [CatalogLine.pluralForm?, if_neg hsign, if_pos hdigits, hvalue, dif_pos form.isLt]

/-- The keyword of a field is known as its own. -/
theorem keywordField_keyword (field : Field) :
    CatalogLine.keywordField field.keyword.toList = .ok field := by
  cases field with
  | msgctxt => rfl
  | msgid => rfl
  | msgidPlural => rfl
  | msgstr form =>
    have hindex : CatalogLine.pluralIndex? ("msgstr[".toList ++ (numeral form ++ [']'])) =
        some (numeral form) := by
      simp [CatalogLine.pluralIndex?]
    rw [toList_keyword_msgstr, CatalogLine.keywordField, hindex]
    simp [pluralForm?_numeral]

theorem head?_keyword (field : Field) : field.keyword.toList.head? = some 'm' := by
  cases field with
  | msgstr form =>
    rw [toList_keyword_msgstr]
    rfl
  | _ => rfl

/-- A keyword is one word: it goes up to the space behind it. -/
theorem all_not_isWhite_keyword (field : Field) :
    (field.keyword.toList.all fun c => !isWhite c) = true := by
  cases field with
  | msgctxt => rfl
  | msgid => rfl
  | msgidPlural => rfl
  | msgstr form =>
    rw [toList_keyword_msgstr, List.all_append, List.all_append]
    have hnumeral : ((numeral form).all fun c => !isWhite c) = true := by
      rw [List.all_eq_true]
      intro c hc
      rw [Text.isWhite_of_isDigit (isDigit_of_mem_numeral hc)]
      rfl
    rw [hnumeral]
    rfl

end Keywords

/-! ### What a line is read as -/

namespace CatalogLine

theorem ofText_blank {s : List Char} (h : ∀ c ∈ s, isWhite c = true) : ofText s = .ok .blank := by
  have htrim : trim s = [] := by
    rw [trim, trimStart, List.dropWhile_eq_nil_iff.2 h]
    rfl
  rw [ofText, htrim]

/-- The mark of an entry no longer in use counts before anything behind it. -/
theorem ofText_obsolete (s : List Char) : ofText ('#' :: '~' :: s) = .ok .obsolete := by
  have hline : trim ('#' :: '~' :: s) = '#' :: '~' :: trimEnd s := by
    rw [trim, Text.trimStart_cons_of_not (by decide), trimEnd_cons_of_not (by decide),
      trimEnd_cons_of_not (by decide)]
  rw [ofText, hline]
  rfl

theorem ofText_quote (value : String) :
    ofText (Quoted.quote value) = .ok (.continuation value) := by
  have hvalue := Quoted.unquote_of_trim (Quoted.trim_quote value)
  rw [ofText, Quoted.trim_quote, Quoted.quote]
  rw [Quoted.quote] at hvalue
  simp only [hvalue]
  rfl

/-- A comment is read without the mark of its kind and the space behind it, if no other white space
stands around its text. -/
theorem ofText_comment {kind : NoteKind} {text : String} (htrim : trim text.toList = text.toList) :
    ofText (kind.mark ++ ' ' :: text.toList) = .ok (.comment kind text) := by
  have hspace : trim (' ' :: text.toList) = text.toList := by
    rw [trim, trimStart, List.dropWhile_cons_of_pos (by decide), ← trimStart, ← trim, htrim]
  obtain hnil | hne := eq_or_ne text.toList []
  · -- the space behind the mark is at the end of the line then
    have htext : text = "" := String.toList_eq_nil_iff.1 hnil
    subst htext
    cases kind <;> rfl
  · have hline : trim (kind.mark ++ ' ' :: text.toList) = kind.mark ++ ' ' :: text.toList := by
      have hstart : trimStart (kind.mark ++ ' ' :: text.toList) =
          kind.mark ++ ' ' :: text.toList := by
        cases kind <;> exact Text.trimStart_cons_of_not (by decide)
      rw [trim, hstart, List.append_cons]
      exact trimEnd_append (Text.trimEnd_of_trim_eq_self htrim) hne
    rw [ofText, hline]
    cases kind <;> simp [NoteKind.mark, ofComment, hspace]

/-- A line that begins with a keyword is the field of this keyword. -/
theorem ofText_keyword {keyword : List Char} {field : Field} {value : String}
    (hfield : keywordField keyword = .ok field) (hwhite : (keyword.all fun c => !isWhite c) = true)
    (hhead : keyword.head? = some 'm') :
    ofText (keyword ++ ' ' :: Quoted.quote value) = .ok (.field field value) := by
  obtain ⟨k, rfl⟩ : ∃ k, keyword = 'm' :: k := by
    cases keyword with
    | nil => cases hhead
    | cons c k => exact ⟨k, by rw [Option.some.inj hhead]⟩
  have hwhite := List.all_eq_true.1 hwhite
  -- neither a keyword nor a quoted string has white space at its end
  have hline : trim ('m' :: k ++ ' ' :: Quoted.quote value) =
      'm' :: k ++ ' ' :: Quoted.quote value := by
    rw [trim, List.cons_append, Text.trimStart_cons_of_not (by decide), ← List.cons_append,
      List.append_cons]
    exact trimEnd_append (Quoted.trimEnd_quote value) (List.cons_ne_nil _ _)
  -- the keyword is all up to the space
  have hkeyword : ofKeyword ('m' :: k ++ ' ' :: Quoted.quote value) = .ok (.field field value) := by
    rw [ofKeyword, List.takeWhile_append_of_pos hwhite, List.takeWhile_cons_of_neg (by decide),
      List.append_nil, List.dropWhile_append_of_pos hwhite, List.dropWhile_cons_of_neg (by decide),
      hfield, Quoted.unquote_of_trim (Quoted.trim_space_quote value)]
    rfl
  rw [ofText, hline]
  exact hkeyword

/-- Every line is read back from each of the ways in which it is written. -/
theorem ofText_of_writes {line : CatalogLine} {s : List Char} (h : line.Writes s) :
    ofText s = .ok line := by
  cases h with
  | blank hwhite _ => exact ofText_blank hwhite
  | obsolete _ => exact ofText_obsolete _
  | comment htrim _ => exact ofText_comment htrim
  | continuation value => exact ofText_quote value
  | field field value =>
    exact ofText_keyword (keywordField_keyword field) (all_not_isWhite_keyword field)
      (head?_keyword field)
  | single value => exact ofText_keyword rfl rfl rfl

end CatalogLine

theorem CatalogLine.Writes.not_mem {line : CatalogLine} {s : List Char} (h : line.Writes s) :
    '\n' ∉ s := by
  cases h with
  | blank _ hline => exact hline
  | obsolete hline => simpa using hline
  | @comment kind _ _ hline => cases kind <;> simpa [NoteKind.mark] using hline
  | continuation value => exact Quoted.not_mem_quote value
  | field field value =>
    intro hmem
    rcases List.mem_append.1 hmem with hkeyword | hvalue
    · have hwhite := List.all_eq_true.1 (all_not_isWhite_keyword field) _ hkeyword
      revert hwhite
      decide
    · simp [Quoted.not_mem_quote] at hvalue
  | single value => simp [Quoted.not_mem_quote]

/-! ## Texts -/

/-- The ways in which lines make up a text. The last one may be without line end. -/
inductive WritesLines : List CatalogLine → List Char → Prop
  | nil : WritesLines [] []
  | last {line : CatalogLine} {s : List Char} : line.Writes s → s ≠ [] → WritesLines [line] s
  | cons {line : CatalogLine} {below : List CatalogLine} {s text : List Char} :
      line.Writes s → WritesLines below text → WritesLines (line :: below) (s ++ '\n' :: text)

/-- The lines of a text are read as those that are written in it. -/
theorem lines_of_writesLines {ls : List CatalogLine} {text : List Char} (h : WritesLines ls text) :
    (lines text).map CatalogLine.ofText = ls.map .ok := by
  induction h with
  | nil => rfl
  | last hline hne =>
    rw [lines_of_not_mem hline.not_mem hne, List.map_singleton, CatalogLine.ofText_of_writes hline]
    rfl
  | cons hline _ ih =>
    rw [lines_append_cons hline.not_mem, List.map_cons, CatalogLine.ofText_of_writes hline, ih]
    rfl

/-! ## Records -/

/-- The lines of a field: its keyword with the first piece of its text, and the other pieces below.
-/
inductive FieldLines (field : Field) : String → List CatalogLine → Prop
  | pieces {value : String} (first : String) (more : List String) :
      String.join (first :: more) = value →
      FieldLines field value (.field field first :: more.map .continuation)

/-- The lines of a field that may be missing. -/
inductive OptionLines (field : Field) : Option String → List CatalogLine → Prop
  | none : OptionLines field none []
  | some {value : String} {ls : List CatalogLine} : FieldLines field value ls →
      OptionLines field (some value) ls

/-- The lines of translations, of which the first has this number. -/
inductive FormLines : Nat → List String → List CatalogLine → Prop
  | nil {n : Nat} : FormLines n [] []
  | cons {n : Nat} (hn : n < 256) {value : String} {values : List String}
      {ls below : List CatalogLine} : FieldLines (.msgstr ⟨n, hn⟩) value ls →
      FormLines (n + 1) values below → FormLines n (value :: values) (ls ++ below)

/-- A comment of each line, one after the other. -/
def Notes.ofLines (notes : List (NoteKind × String)) : Notes :=
  notes.foldl (fun n note => n.add note.2 note.1) .empty

/-- The lines of a record: its comments in some order, then its fields. -/
inductive RecordLines : Record → List CatalogLine → Prop
  | fields (notes : List (NoteKind × String)) {msgctxt plural : Option String}
      {msgid msgstr : String} {more : List String} {ls₁ ls₂ ls₃ ls₄ : List CatalogLine} :
      OptionLines .msgctxt msgctxt ls₁ → FieldLines .msgid msgid ls₂ →
      OptionLines .msgidPlural plural ls₃ → FormLines 0 (msgstr :: more) ls₄ →
      RecordLines ⟨msgctxt, msgid, plural, msgstr :: more, Notes.ofLines notes⟩
        (notes.map (fun note => .comment note.1 note.2) ++ (ls₁ ++ (ls₂ ++ (ls₃ ++ ls₄))))

/-- The lines of records, with blank lines between them or not. -/
inductive RecordsLines : List Record → List CatalogLine → Prop
  | nil : RecordsLines [] []
  | blank {rs : List Record} {ls : List CatalogLine} : RecordsLines rs ls →
      RecordsLines rs (.blank :: ls)
  | record {r : Record} {rs : List Record} {ls below : List CatalogLine} : RecordLines r ls →
      RecordsLines rs below → RecordsLines (r :: rs) (ls ++ below)

/-- The ways in which records are written as a catalog. Lines of entries no longer in use stand
anywhere between the others. -/
def WritesRecords (rs : List Record) (text : String) : Prop :=
  ∃ ls, RecordsLines rs (ls.filter (· ≠ .obsolete)) ∧ WritesLines ls text.toList

end FluentMerge
