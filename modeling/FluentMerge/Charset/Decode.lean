import FluentMerge.Charset.Declaration
import FluentMerge.Charset.Encoding
import FluentMerge.Charset.Utf16
import FluentMerge.Text.Utf8

/-!
# Bytes of a catalog as text

A catalog with a byte order mark is in UTF-8, whatever it declares. Else the charset that it
declares near its beginning counts, if that is a known label. Without such a declaration bytes that
are UTF-8 are read so, and of all others the encoding is guessed.

The tables of the East Asian encodings and the guess are left to a library (`Codecs`).
-/

namespace FluentMerge.Charset

/-- What is left to a library of encodings. -/
structure Codecs where
  /-- The text that bytes stand for in an East Asian encoding. -/
  decodeEastAsian : EastAsian → List UInt8 → List Char
  /-- The encoding that bytes seem to be in. -/
  guess : List UInt8 → Encoding

/-- The text that bytes stand for in an encoding. No byte order mark is looked for, and what stands
for nothing is U+FFFD. -/
def Encoding.decode (e : Encoding) (codecs : Codecs) (s : List UInt8) : List Char :=
  match e with
  | .utf8 => Utf8.decodeReplacing s
  | .utf16le => Utf16.decode .littleEndian s
  | .utf16be => Utf16.decode .bigEndian s
  | .codePage page => s.map page.decodeByte
  | .eastAsian encoding => codecs.decodeEastAsian encoding s
  | .replacement => if s = [] then [] else ['\ufffd']
  | .userDefined =>
    s.map fun b => Char.ofNat (if b < 0x80 then b.toNat else 0xf780 + (b.toNat - 0x80))

/-- The number of bytes among which a declaration is looked for. -/
def declarationLimit : Nat := 4096

/-- The encoding that bytes declare, if they declare one that is known. -/
def declaredEncoding? (s : List UInt8) : Option Encoding :=
  (declared? (Utf8.decodeReplacing (s.take declarationLimit))).bind fun label =>
    Encoding.ofLabel? (String.ofList label)

/-- The bytes after a byte order mark, if there is one. -/
def afterByteOrderMark? : List UInt8 → Option (List UInt8)
  | 0xef :: 0xbb :: 0xbf :: s => some s
  | _ => none

/-- The text of a catalog, and the encoding it is read in. -/
def decodeCatalog (codecs : Codecs) (s : List UInt8) : List Char × Encoding :=
  match afterByteOrderMark? s with
  | some rest => (Utf8.decodeReplacing rest, .utf8)
  | none =>
    match declaredEncoding? s with
    | some e => (e.decode codecs s, e)
    | none =>
      match Utf8.decode? s with
      | some text => (text, .utf8)
      | none => ((codecs.guess s).decode codecs s, codecs.guess s)

end FluentMerge.Charset
