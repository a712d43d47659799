import FluentMerge.Proofs.Charset.HeaderCharset
import FluentMerge.Proofs.Conversion.AllOrNothing

/-!
# Catalogs in UTF-8

A text that is written in UTF-8 is read back as it is, whatever it declares if a byte order mark
stands before it, and without the mark exactly if no other encoding is declared near its beginning
(`readAs_encode`). The text must not begin with the character of the mark then, as this would be
taken for the mark. Where the bytes near the beginning end is a matter of bytes alone: a character
may be cut there, and its first half is no obstacle.
-/

namespace FluentMerge.Charset

open Utf8 (encode scan_encode scan_encodeChar_append decodeReplacing_encode decode?_encode)

/-! ## The mark -/

/-- A byte order mark in UTF-8. -/
def byteOrderMark : List UInt8 := encode ['\ufeff']

theorem afterByteOrderMark?_mark (s : List UInt8) :
    afterByteOrderMark? (byteOrderMark ++ s) = some s := rfl

/-- The mark stands only where its character does. -/
theorem afterByteOrderMark?_encode {s : List Char} (h : s.head? ≠ some '\ufeff') :
    afterByteOrderMark? (encode s) = none := by
  unfold afterByteOrderMark?
  split
  · next rest hbytes =>
    have hscan : s.map some = some '\ufeff' :: Utf8.scan rest := by
      rw [← scan_encode, hbytes]
      exact scan_encodeChar_append '\ufeff' rest
    cases s with
    | nil => cases hscan
    | cons c s =>
      obtain ⟨hc, -⟩ := List.cons.inj hscan
      exact absurd hc h
  · rfl

/-! ## Reading back -/

variable {codecs : Codecs}

/-- Whether bytes are decoded as this text in UTF-8, and a file of them is read as the catalog that
the text holds, or refused for its first fault. -/
structure ReadAs (codecs : Codecs) (s : List UInt8) (text : String) : Prop where
  decoded : decodeCatalog codecs s = (text.toList, .utf8)
  loaded : ∀ (files : FileReader) (path : String), files path = .ok s →
    loadCatalog codecs files path = (Catalog.parse text).mapError (.catalog path)

/-- Whether the label that bytes declare near their beginning is none, is not known, or is one of
UTF-8. -/
def DeclaresNoOther (s : List UInt8) : Prop :=
  ∀ label ∈ declared? (beginning s), ∀ e ∈ Encoding.ofLabel? (String.ofList label), e = .utf8

theorem declaresNoOther_iff {s : List UInt8} :
    DeclaresNoOther s ↔ ∀ e ∈ declaredEncoding? s, e = .utf8 := by
  unfold DeclaresNoOther
  rw [declaredEncoding?, ← beginning]
  cases declared? (beginning s) with
  | none => simp
  | some label => simp

theorem readAs_of_decoded {s : List UInt8} {text : String}
    (h : decodeCatalog codecs s = (text.toList, .utf8)) : ReadAs codecs s text where
  decoded := h
  loaded files path hfile := by
    apply loadCatalog_of_holds
    exact ⟨s, hfile, by rw [h, String.ofList_toList]⟩

theorem decodeCatalog_mark (s : List Char) :
    decodeCatalog codecs (byteOrderMark ++ encode s) = (s, .utf8) := by
  rw [decodeCatalog, afterByteOrderMark?_mark]
  simp only [decodeReplacing_encode]

/-- Text in UTF-8 without a mark is decoded as it is exactly if no other encoding is declared. -/
theorem decodeCatalog_encode_iff {s : List Char} (h : s.head? ≠ some '\ufeff') :
    decodeCatalog codecs (encode s) = (s, .utf8) ↔ DeclaresNoOther (encode s) := by
  have hmark := afterByteOrderMark?_encode h
  rw [declaresNoOther_iff]
  cases hdeclared : declaredEncoding? (encode s) with
  | none =>
    rw [decodeCatalog_of_undeclared hmark hdeclared (decode?_encode s)]
    simp
  | some e =>
    rw [decodeCatalog_of_declared hmark hdeclared]
    constructor
    · intro hdecoded e' he'
      obtain rfl := Option.some.inj he'
      exact (Prod.mk.inj hdecoded).2
    · intro hutf8
      obtain rfl : e = .utf8 := hutf8 e rfl
      rw [Encoding.decode, decodeReplacing_encode]

/-- A text in UTF-8 is read back behind a byte order mark, whatever it declares. Without the mark it
is read back exactly if it declares nothing, nothing that is known, or UTF-8. -/
theorem readAs_encode (codecs : Codecs) (text : String) :
    ReadAs codecs (byteOrderMark ++ encode text.toList) text ∧
      (text.toList.head? ≠ some '\ufeff' →
        (ReadAs codecs (encode text.toList) text ↔ DeclaresNoOther (encode text.toList))) := by
  refine ⟨readAs_of_decoded (decodeCatalog_mark _), fun hhead => ?_⟩
  rw [← decodeCatalog_encode_iff hhead]
  exact ⟨ReadAs.decoded, readAs_of_decoded⟩

/-- A comment of `n` marks and a letter of two bytes, and a declaration below it. -/
def longNote (n : Nat) : String :=
  String.ofList (List.replicate n '#' ++ "é\n# charset=Latin1".toList)

/-- The first `n + 1` bytes end with half of the letter. -/
theorem decodeReplacing_take_longNote (n : Nat) :
    Utf8.decodeReplacing ((encode (longNote n).toList).take (n + 1)) =
      List.replicate n '#' ++ ['\ufffd'] := by
  have hmarks : encode (List.replicate n '#') = List.replicate n 0x23 := by
    rw [encode, List.flatMap_replicate]
    exact List.flatten_replicate_singleton
  have hnote : encode (longNote n).toList =
      encode (List.replicate n '#') ++ encode "é\n# charset=Latin1".toList := by
    rw [longNote, String.toList_ofList, encode, List.flatMap_append]
    rfl
  have htake : (encode (longNote n).toList).take (n + 1) =
      encode (List.replicate n '#') ++ [0xc3] := by
    rw [hnote, hmarks, List.take_append, List.length_replicate, List.take_replicate,
      Nat.min_eq_right (Nat.le_succ n), Nat.add_sub_cancel_left]
    rfl
  have hhalf : Utf8.scan [0xc3] = [none] := by decide +kernel
  rw [htake, Utf8.decodeReplacing, Utf8.scan_encode_append, hhalf, List.map_append, List.map_map]
  exact congrArg (· ++ ['\ufffd']) (List.map_id _)

/-- Nothing is declared by marks. -/
theorem declared?_marks (n : Nat) : declared? (List.replicate n '#' ++ ['\ufffd']) = none := by
  rw [declared?_skip]
  · rfl
  · intro c hc
    rw [List.eq_of_mem_replicate hc]
    rfl

theorem readAs_encode_longNote :
    (longNote 4095).toList.head? ≠ some '\ufeff' ∧
      DeclaresNoOther (encode (longNote 4095).toList) ∧
      ReadAs .oneByte (encode (longNote 4095).toList) (longNote 4095) := by
  have hhead (n : Nat) : (longNote (n + 1)).toList.head? ≠ some '\ufeff' := by
    rw [longNote, String.toList_ofList, List.replicate_succ, List.cons_append, List.head?_cons]
    decide
  have hdeclares : DeclaresNoOther (encode (longNote 4095).toList) := by
    intro label hlabel
    rw [beginning, declarationLimit, decodeReplacing_take_longNote 4095, declared?_marks] at hlabel
    cases hlabel
  obtain ⟨-, hread⟩ := readAs_encode .oneByte (longNote 4095)
  exact ⟨hhead 4094, hdeclares, (hread (hhead 4094)).2 hdeclares⟩

end FluentMerge.Charset
