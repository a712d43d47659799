/-!
# UTF-16

Text in units of two bytes. Two surrogates, a high one and then a low one, are one character; a
surrogate without its partner is U+FFFD. A byte that is left over at the end is U+FFFD, together
with a high surrogate before it if there is one.
-/

namespace FluentMerge.Charset.Utf16

/-- Which byte of a unit comes first. -/
inductive ByteOrder where
  | littleEndian
  | bigEndian
  deriving DecidableEq, Repr

/-- The unit of two bytes. -/
def unit (order : ByteOrder) (a b : UInt8) : Nat :=
  match order with
  | .littleEndian => 256 * b.toNat + a.toNat
  | .bigEndian => 256 * a.toNat + b.toNat

/-- Whether a unit is the first of two surrogates. -/
def isHighSurrogate (u : Nat) : Bool := 0xd800 ≤ u && u ≤ 0xdbff

/-- Whether a unit is the second of two surrogates. -/
def isLowSurrogate (u : Nat) : Bool := 0xdc00 ≤ u && u ≤ 0xdfff

/-- The character that two surrogates make. -/
def pairChar (high low : Nat) : Char :=
  Char.ofNat (0x10000 + 0x400 * (high - 0xd800) + (low - 0xdc00))

/-- The text that bytes stand for. -/
def decode (order : ByteOrder) : List UInt8 → List Char
  | [] => []
  | [_] => ['\ufffd']
  | a :: b :: s =>
    if isHighSurrogate (unit order a b) then
      match s with
      | [] => ['\ufffd']
      | [_] => ['\ufffd']
      | c :: d :: t =>
        if isLowSurrogate (unit order c d) then
          pairChar (unit order a b) (unit order c d) :: decode order t
        else '\ufffd' :: decode order (c :: d :: t)
    else if isLowSurrogate (unit order a b) then '\ufffd' :: decode order s
    else Char.ofNat (unit order a b) :: decode order s

end FluentMerge.Charset.Utf16
