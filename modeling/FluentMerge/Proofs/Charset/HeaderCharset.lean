import FluentMerge.Catalog.Parser
import FluentMerge.Charset.OneByte
import FluentMerge.Proofs.Charset.Declared
import Mathlib.Data.List.Infix

/-!
# The charset in a catalog's header

A catalog has to be decoded before its header can be read, so the charset that the header declares
is looked for in the first bytes as they are. It is found there if the content type of the header
stands in them in one piece and nothing else is declared above it (`honorsHeader_of_standsFirst`).
A comment that declares another charset is taken for the header (`not_honorsHeader`).
-/

namespace FluentMerge

open Charset (Encoding)

namespace Catalog

/-- The content type in the header of a catalog. -/
def contentType? (c : Catalog) : Option (List Char) := c.headers["Content-Type"]?.map String.toList

/-- The label of the charset that the header declares. -/
def headerLabel? (c : Catalog) : Option (List Char) := c.contentType?.bind Charset.declared?

/-- The encoding that the header declares, if the label is known. -/
def headerEncoding? (c : Catalog) : Option Encoding :=
  c.headerLabel?.bind fun label => Encoding.ofLabel? (String.ofList label)

end Catalog

namespace Charset

variable {codecs : Codecs} {s : List UInt8}

/-- The catalog in bytes, or its first fault. -/
def readCatalog (codecs : Codecs) (s : List UInt8) : Except CatalogError Catalog :=
  Catalog.parse (String.ofList (decodeCatalog codecs s).1)

/-- The text in which a declaration is looked for: the first bytes, read as UTF-8. -/
def beginning (s : List UInt8) : List Char := Utf8.decodeReplacing (s.take declarationLimit)

/-- Whether bytes with a catalog in them are decoded as its header declares, and as UTF-8 if it
declares nothing and they are UTF-8. -/
def HonorsHeader (codecs : Codecs) (s : List UInt8) : Prop :=
  ∀ c, readCatalog codecs s = .ok c →
    (∀ e, c.headerEncoding? = some e → (decodeCatalog codecs s).2 = e) ∧
      (c.headerLabel? = none → Utf8.decode? s ≠ none → (decodeCatalog codecs s).2 = .utf8)

/-- Whether the header of a catalog declares what its bytes declare first. If it declares nothing,
they declare no other encoding than UTF-8. -/
structure HeaderStandsFirst (s : List UInt8) (c : Catalog) : Prop where
  declared : ∀ type ∈ c.contentType?, declared? type ≠ none → StandsFirst type (beginning s)
  undeclared : c.headerLabel? = none → ∀ e ∈ declaredEncoding? s, e = .utf8

theorem decodeCatalog_of_declared {e : Encoding} (hmark : afterByteOrderMark? s = none)
    (h : declaredEncoding? s = some e) : decodeCatalog codecs s = (e.decode codecs s, e) := by
  simp only [decodeCatalog, hmark, h]

theorem decodeCatalog_of_undeclared {text : List Char} (hmark : afterByteOrderMark? s = none)
    (h : declaredEncoding? s = none) (htext : Utf8.decode? s = some text) :
    decodeCatalog codecs s = (text, .utf8) := by
  simp only [decodeCatalog, hmark, h, htext]

/-- The encoding of a header that stands first is the one that is found. -/
theorem HeaderStandsFirst.declaredEncoding?_eq {c : Catalog} (h : HeaderStandsFirst s c)
    {e : Encoding} (he : c.headerEncoding? = some e) : declaredEncoding? s = some e := by
  obtain ⟨label, hlabel, he⟩ := Option.bind_eq_some_iff.1 he
  obtain ⟨type, htype, hdeclared⟩ := Option.bind_eq_some_iff.1 hlabel
  have hfirst := h.declared type htype (by simp [hdeclared])
  have hfound : declared? (beginning s) = some label := hfirst.declared?_eq hdeclared
  rw [beginning] at hfound
  rw [declaredEncoding?, hfound, Option.bind_some, he]

/-- Bytes are decoded as the header of their catalog declares if it stands first in them. -/
theorem honorsHeader_of_standsFirst (hmark : afterByteOrderMark? s = none)
    (h : ∀ c, readCatalog codecs s = .ok c → HeaderStandsFirst s c) : HonorsHeader codecs s := by
  intro c hc
  have hfirst := h c hc
  refine ⟨fun e he => ?_, fun hnone hutf8 => ?_⟩
  · rw [decodeCatalog_of_declared hmark (hfirst.declaredEncoding?_eq he)]
  · cases hdeclared : declaredEncoding? s with
    | none =>
      obtain ⟨text, htext⟩ := Option.ne_none_iff_exists'.1 hutf8
      rw [decodeCatalog_of_undeclared hmark hdeclared htext]
    | some e =>
      obtain rfl := hfirst.undeclared hnone e hdeclared
      rw [decodeCatalog_of_declared hmark hdeclared]

/-- A catalog up to the content type in its header. -/
def coffeeAbove : List Char := "msgid \"\"\nmsgstr \"Content-Type: ".toList

/-- A content type that declares Western European text. -/
def coffeeType : List Char := "text/plain; charset=Latin1".toList

/-- The catalog with a word in a comment whose last byte is no UTF-8. -/
def coffeeBytes : List UInt8 :=
  Utf8.encode (coffeeAbove ++ coffeeType ++ "\\n\"\n# Caf".toList) ++ [0xe9]

theorem honorsHeader_of_standsFirst_coffee :
    afterByteOrderMark? coffeeBytes = none ∧
    (∀ c, readCatalog .oneByte coffeeBytes = .ok c → HeaderStandsFirst coffeeBytes c) ∧
    HonorsHeader .oneByte coffeeBytes := by
  have hmark : afterByteOrderMark? coffeeBytes = none := by decide +kernel
  have hread : (readCatalog .oneByte coffeeBytes).map Catalog.contentType? =
      .ok (some coffeeType) := by
    decide +kernel
  have hdeclared : declared? coffeeType = some "latin1".toList := by decide +kernel
  -- the header is found behind the lines above it, in which no charset is declared
  let below := (beginning coffeeBytes).drop (coffeeAbove ++ coffeeType).length
  have habove : ∀ v ∈ coffeeAbove.tails, v ≠ [] →
      labelHere? (v ++ (coffeeType ++ below)) = none := by
    decide +kernel
  have hfirst : StandsFirst coffeeType (beginning coffeeBytes) := by
    have hbelow : below.head? = some '\\' := by decide +kernel
    refine ⟨coffeeAbove, below, by decide +kernel, ?_, ?_⟩
    · intro v hv
      exact habove v ((List.mem_tails _ _).2 hv)
    · rw [hbelow]
      simp [isLabelChar, Char.isAlphanum]
  have hheader : ∀ c, readCatalog .oneByte coffeeBytes = .ok c →
      HeaderStandsFirst coffeeBytes c := by
    intro c hc
    have htype : c.contentType? = some coffeeType := by
      rw [hc] at hread
      exact Except.ok.inj hread
    refine ⟨fun type htype' _ => ?_, fun hnone => ?_⟩
    · rw [htype] at htype'
      cases htype'
      exact hfirst
    · -- the header declares one, so there is nothing to ask of the rest
      rw [Catalog.headerLabel?, htype, Option.bind_some, hdeclared] at hnone
      cases hnone
  exact ⟨hmark, hheader, honorsHeader_of_standsFirst hmark hheader⟩

/-- A word in a comment with a charset, above a header that declares UTF-8. -/
def commentedText (word : String) : String :=
  "# " ++ word ++ ", charset=Latin1\nmsgid \"\"\n" ++
    "msgstr \"Content-Type: text/plain; charset=UTF-8\\n\""

/-- The charset in a comment above the header is used in place of that in the header, whatever the
codecs are. -/
theorem not_honorsHeader :
    ¬∃ codecs, ∀ s, afterByteOrderMark? s = none → HonorsHeader codecs s := by
  rintro ⟨codecs, h⟩
  -- the comment above the header declares another charset, and all bytes are letters in it
  have hmark : afterByteOrderMark? (Utf8.encode (commentedText "Café").toList) = none := by
    decide +kernel
  have hdeclared : declaredEncoding? (Utf8.encode (commentedText "Café").toList) =
      some (.codePage .windows1252) := by
    decide +kernel
  have htext : (Utf8.encode (commentedText "Café").toList).map CodePage.windows1252.decodeByte =
      (commentedText "CafÃ©").toList := by
    decide +kernel
  have hdecoded : decodeCatalog codecs (Utf8.encode (commentedText "Café").toList) =
      ((commentedText "CafÃ©").toList, .codePage .windows1252) := by
    rw [decodeCatalog_of_declared hmark hdeclared, Encoding.decode, htext]
  -- the header names the charset that the catalog was not decoded with
  have hread : (Catalog.parse (commentedText "CafÃ©")).map Catalog.headerEncoding? =
      .ok (some .utf8) := by
    decide +kernel
  cases hc : Catalog.parse (commentedText "CafÃ©") with
  | error fault =>
    rw [hc] at hread
    cases hread
  | ok c =>
    rw [hc] at hread
    have hcatalog : readCatalog codecs (Utf8.encode (commentedText "Café").toList) = .ok c := by
      rw [readCatalog, hdecoded, String.ofList_toList, hc]
    have hutf8 := (h _ hmark c hcatalog).1 .utf8 (Except.ok.inj hread)
    rw [hdecoded] at hutf8
    cases hutf8

end Charset

end FluentMerge
