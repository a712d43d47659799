import FluentMerge.Charset.Decode

/-!
# Codecs without tables

The codecs that the program uses when it is given no others (`Codecs.oneByte`). East Asian encodings
are read as far as one byte makes a character: the tables of the characters of more bytes are not
part of this library, and each such character is read as U+FFFD. Bytes that declare nothing are
taken for Western European text.
-/

namespace FluentMerge.Charset

/-- How an encoding cuts bytes into characters of one byte and of two. -/
structure DoubleByte where
  /-- The character of one byte, if it is one. -/
  single? : UInt8 → Option Char
  /-- Whether a byte is the first of two. -/
  isLead : UInt8 → Bool
  /-- Whether a byte can follow the first of two. -/
  isTrail : UInt8 → Bool

namespace DoubleByte

/-- Whether a byte lies between two others, these included. -/
def between (lo hi b : UInt8) : Bool := lo ≤ b && b ≤ hi

/-- The ASCII character of a byte. -/
def ascii? (b : UInt8) : Option Char := if b < 0x80 then some (Char.ofNat b.toNat) else none

/-- The narrow syllable that a byte of Japanese encodings stands for. -/
def katakana? (b : UInt8) : Option Char :=
  if between 0xa1 0xdf b then some (Char.ofNat (0xff61 + (b.toNat - 0xa1))) else none

/-- GBK and its extension: 128 is the euro sign. -/
def gbk : DoubleByte where
  single? b := if b = 0x80 then some '€' else ascii? b
  isLead := between 0x81 0xfe
  isTrail b := between 0x40 0x7e b || between 0x80 0xfe b

/-- Big5. -/
def big5 : DoubleByte where
  single? := ascii?
  isLead := between 0x81 0xfe
  isTrail b := between 0x40 0x7e b || between 0xa1 0xfe b

/-- EUC-JP. -/
def eucJp : DoubleByte where
  single? := ascii?
  isLead b := b == 0x8e || b == 0x8f || between 0xa1 0xfe b
  isTrail := between 0xa1 0xfe

/-- EUC-KR. -/
def eucKr : DoubleByte where
  single? := ascii?
  isLead := between 0x81 0xfe
  isTrail := between 0x41 0xfe

/-- Shift_JIS. -/
def shiftJis : DoubleByte where
  single? b :=
    if b = 0x80 then some '\u0080' else (ascii? b).or (katakana? b)
  isLead b := between 0x81 0x9f b || between 0xe0 0xfc b
  isTrail b := between 0x40 0x7e b || between 0x80 0xfc b

/-- The text that bytes stand for. An ASCII byte that cannot follow a first byte is read again. -/
def decode (d : DoubleByte) : List UInt8 → List Char
  | [] => []
  | b :: s =>
    match d.single? b with
    | some c => c :: decode d s
    | none =>
      if d.isLead b then
        match s with
        | [] => ['\ufffd']
        | t :: rest =>
          if !d.isTrail t && t < 0x80 then '\ufffd' :: decode d (t :: rest)
          else '\ufffd' :: decode d rest
      else '\ufffd' :: decode d s

end DoubleByte

/-! ## ISO-2022-JP -/

namespace Iso2022Jp

/-- Which characters the bytes stand for until the next escape. -/
inductive Mode where
  | ascii
  | roman
  | katakana
  | twoBytes
  deriving DecidableEq, Repr

/-- The mode that the two bytes after an escape byte announce. -/
def announced? (a b : UInt8) : Option Mode :=
  if a = 0x28 then
    if b = 0x42 then some .ascii
    else if b = 0x4a then some .roman
    else if b = 0x49 then some .katakana
    else none
  else if a = 0x24 ∧ (b = 0x40 ∨ b = 0x42) then some .twoBytes
  else none

/-- The character of one byte in a mode. In the Roman mode the backslash is the yen sign and the
tilde an overline. -/
def single? (mode : Mode) (b : UInt8) : Option Char :=
  match mode with
  | .twoBytes => none
  | .katakana =>
    if 0x21 ≤ b ∧ b ≤ 0x5f then some (Char.ofNat (0xff61 + (b.toNat - 0x21))) else none
  | mode =>
    if b = 0x0e ∨ b = 0x0f ∨ 0x80 ≤ b then none
    else if mode = .roman ∧ b = 0x5c then some '¥'
    else if mode = .roman ∧ b = 0x7e then some '‾'
    else some (Char.ofNat b.toNat)

/-- The text that bytes stand for in a mode. An escape directly after an escape is U+FFFD;
`afterEscape` tells whether nothing has come since the last one. -/
def decodeIn (mode : Mode) (afterEscape : Bool) : List UInt8 → List Char
  | [] => []
  | b :: s =>
    if b = 0x1b then
      match s with
      | x :: y :: rest =>
        match announced? x y with
        | some next =>
          if afterEscape then '\ufffd' :: decodeIn next true rest else decodeIn next true rest
        | none => '\ufffd' :: decodeIn mode false (x :: y :: rest)
      | s => '\ufffd' :: decodeIn mode false s
    else if mode = .twoBytes ∧ 0x21 ≤ b ∧ b ≤ 0x7e then
      match s with
      | [] => ['\ufffd']
      | t :: rest =>
        if t = 0x1b then '\ufffd' :: decodeIn mode false (t :: rest)
        else '\ufffd' :: decodeIn mode false rest
    else ((single? mode b).getD '\ufffd') :: decodeIn mode false s

/-- The text that bytes stand for. -/
def decode (s : List UInt8) : List Char := decodeIn .ascii false s

end Iso2022Jp

/-! ## Codecs -/

/-- The codecs that know the characters of one byte, and Western European text for a guess. -/
def Codecs.oneByte : Codecs where
  decodeEastAsian encoding s :=
    match encoding with
    | .gbk => DoubleByte.gbk.decode s
    | .gb18030 => DoubleByte.gbk.decode s
    | .big5 => DoubleByte.big5.decode s
    | .eucJp => DoubleByte.eucJp.decode s
    | .iso2022Jp => Iso2022Jp.decode s
    | .shiftJis => DoubleByte.shiftJis.decode s
    | .eucKr => DoubleByte.eucKr.decode s
  guess _ := .codePage .windows1252

end FluentMerge.Charset
