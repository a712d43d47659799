/-!
# UTF-8

Text in bytes and back. A scan cuts bytes into characters and malformed pieces; a malformed piece is
the longest beginning of a character that is not completed, or a byte that begins none. Reading
strictly refuses malformed pieces, reading with replacement puts U+FFFD for each.

`scan_encode` says that the scan of an encoded text is the text.
-/

namespace FluentMerge.Utf8

/-- The bytes of a text. -/
def encode (s : List Char) : List UInt8 := s.flatMap String.utf8EncodeChar

/-- What a first byte says: the bits it gives, and for each byte that has to follow the range in
which it lies. A byte that begins no character gives nothing. -/
def lead? (b : Nat) : Option (Nat × List (Nat × Nat)) :=
  if b < 0x80 then some (b, [])
  else if b < 0xc2 then none
  else if b < 0xe0 then some (b - 0xc0, [(0x80, 0xbf)])
  else if b = 0xe0 then some (0, [(0xa0, 0xbf), (0x80, 0xbf)])
  else if b = 0xed then some (0xd, [(0x80, 0x9f), (0x80, 0xbf)])
  else if b < 0xf0 then some (b - 0xe0, [(0x80, 0xbf), (0x80, 0xbf)])
  else if b = 0xf0 then some (0, [(0x90, 0xbf), (0x80, 0xbf), (0x80, 0xbf)])
  else if b < 0xf4 then some (b - 0xf0, [(0x80, 0xbf), (0x80, 0xbf), (0x80, 0xbf)])
  else if b = 0xf4 then some (4, [(0x80, 0x8f), (0x80, 0xbf), (0x80, 0xbf)])
  else none

/-- Reads the bytes that have to follow in their ranges: the number when all are there, and the
bytes from the first on that was not read. -/
def follow : (bits : Nat) → List (Nat × Nat) → List UInt8 → Option Nat × List UInt8
  | bits, [], s => (some bits, s)
  | _, _ :: _, [] => (none, [])
  | bits, r :: ranges, b :: s =>
    if r.1 ≤ b.toNat ∧ b.toNat ≤ r.2 then follow (64 * bits + (b.toNat - 0x80)) ranges s
    else (none, b :: s)

/-- A byte that does not fit is left for the next character, so following never goes back. -/
theorem follow_suffix (bits : Nat) (ranges : List (Nat × Nat)) (s : List UInt8) :
    (follow bits ranges s).2 <:+ s := by
  fun_induction follow bits ranges s with
  | case1 => exact List.suffix_rfl
  | case2 => exact List.suffix_rfl
  | case3 bits r ranges b s h ih => exact ih.trans (List.suffix_cons _ _)
  | case4 => exact List.suffix_rfl

/-- The characters of bytes, and `none` for each malformed piece. -/
def scan : List UInt8 → List (Option Char)
  | [] => []
  | b :: s =>
    match lead? b.toNat with
    | none => none :: scan s
    | some (bits, ranges) =>
      (follow bits ranges s).1.map Char.ofNat :: scan (follow bits ranges s).2
termination_by s => s.length
decreasing_by
  · simp
  · have := (follow_suffix bits ranges s).length_le
    simp
    omega

/-- The text that bytes stand for, with U+FFFD for each malformed piece. -/
def decodeReplacing (s : List UInt8) : List Char := (scan s).map (·.getD '\ufffd')

/-- The text that bytes stand for, if no piece is malformed. -/
def decode? (s : List UInt8) : Option (List Char) := (scan s).mapM id

/-! ## Encoded text is scanned back -/

theorem toNat_ofNat_of_lt {n : Nat} (h : n < 256) : (UInt8.ofNat n).toNat = n := by
  simp
  omega

/-- A character begins with a byte that leads, and the bytes that follow decide what it is. -/
theorem scan_cons {b : UInt8} {s : List UInt8} {bits : Nat} {ranges : List (Nat × Nat)}
    (h : lead? b.toNat = some (bits, ranges)) :
    scan (b :: s) = (follow bits ranges s).1.map Char.ofNat :: scan (follow bits ranges s).2 := by
  rw [scan, h]

/-- A byte that fits adds its six bits. -/
theorem follow_cons {bits lo hi n : Nat} {ranges : List (Nat × Nat)} {s : List UInt8}
    (hn : n < 256) (hlo : lo ≤ n) (hhi : n ≤ hi) :
    follow bits ((lo, hi) :: ranges) (UInt8.ofNat n :: s) =
      follow (64 * bits + (n - 0x80)) ranges s := by
  rw [follow, toNat_ofNat_of_lt hn, if_pos ⟨hlo, hhi⟩]

theorem lead?_two {n : Nat} (h : 0x80 ≤ n) (h' : n < 0x800) :
    lead? (n / 64 % 32 + 192) = some (n / 64, [(0x80, 0xbf)]) := by
  have : n / 64 % 32 + 192 - 0xc0 = n / 64 := by omega
  unfold lead?
  rw [if_neg (by omega), if_neg (by omega), if_pos (by omega), this]

/-- The first byte of one that takes three. The byte behind it must not make the number short of its
range, nor one of a surrogate. -/
theorem lead?_three {n : Nat} (h : 0x800 ≤ n) (h' : n < 0x10000) (hs : n < 0xd800 ∨ 0xdfff < n) :
    ∃ lo hi, lead? (n / 4096 % 16 + 224) = some (n / 4096, [(lo, hi), (0x80, 0xbf)]) ∧
      lo ≤ n / 64 % 64 + 128 ∧ n / 64 % 64 + 128 ≤ hi := by
  unfold lead?
  rw [if_neg (by omega), if_neg (by omega), if_neg (by omega)]
  by_cases h0 : n / 4096 = 0
  · exact ⟨0xa0, 0xbf, by rw [if_pos (by omega), h0], by omega, by omega⟩
  by_cases h1 : n / 4096 = 13
  · exact ⟨0x80, 0x9f, by rw [if_neg (by omega), if_pos (by omega), h1], by omega, by omega⟩
  · have : n / 4096 % 16 + 224 - 0xe0 = n / 4096 := by omega
    exact ⟨0x80, 0xbf, by rw [if_neg (by omega), if_neg (by omega), if_pos (by omega), this],
      by omega, by omega⟩

/-- The first byte of one that takes four. The byte behind it must keep the number in the range of
Unicode. -/
theorem lead?_four {n : Nat} (h : 0x10000 ≤ n) (h' : n < 0x110000) :
    ∃ lo hi, lead? (n / 262144 % 8 + 240) =
        some (n / 262144, [(lo, hi), (0x80, 0xbf), (0x80, 0xbf)]) ∧
      lo ≤ n / 4096 % 64 + 128 ∧ n / 4096 % 64 + 128 ≤ hi := by
  unfold lead?
  rw [if_neg (by omega), if_neg (by omega), if_neg (by omega), if_neg (by omega),
    if_neg (by omega), if_neg (by omega)]
  by_cases h0 : n / 262144 = 0
  · exact ⟨0x90, 0xbf, by rw [if_pos (by omega), h0], by omega, by omega⟩
  by_cases h4 : n / 262144 = 4
  · exact ⟨0x80, 0x8f, by rw [if_neg (by omega), if_neg (by omega), if_pos (by omega), h4],
      by omega, by omega⟩
  · have : n / 262144 % 8 + 240 - 0xf0 = n / 262144 := by omega
    exact ⟨0x80, 0xbf, by rw [if_neg (by omega), if_pos (by omega), this], by omega, by omega⟩

/-- The first character of an encoded text is scanned off its front. -/
theorem scan_encodeChar_append (c : Char) (s : List UInt8) :
    scan (String.utf8EncodeChar c ++ s) = some c :: scan s := by
  have hof : Char.ofNat c.val.toNat = c := Char.ofNat_toNat c
  have hvalid : c.val.toNat < 0xd800 ∨ 0xdfff < c.val.toNat ∧ c.val.toNat < 0x110000 := c.valid
  rw [String.utf8EncodeChar]
  generalize c.val.toNat = n at hof hvalid
  split
  · -- one byte, the character itself
    have hb : (UInt8.ofNat n).toNat = n := toNat_ofNat_of_lt (by omega)
    have hl : lead? (UInt8.ofNat n).toNat = some (n, []) := by
      rw [hb]
      unfold lead?
      rw [if_pos (by omega)]
    rw [List.singleton_append, scan_cons hl, follow, Option.map_some, hof]
  split
  · have hb : (UInt8.ofNat (n / 64 % 32 + 192)).toNat = n / 64 % 32 + 192 :=
      toNat_ofNat_of_lt (by omega)
    have hl := hb ▸ lead?_two (n := n) (by omega) (by omega)
    -- the six bits that follow go behind those of the first byte
    have hn : 64 * (n / 64) + (n % 64 + 128 - 0x80) = n := by omega
    rw [List.cons_append, List.singleton_append, scan_cons hl,
      follow_cons (by omega) (by omega) (by omega), follow, hn, Option.map_some, hof]
  split
  · obtain ⟨lo, hi, hl, hlo, hhi⟩ := lead?_three (n := n) (by omega) (by omega) (by omega)
    have hb : (UInt8.ofNat (n / 4096 % 16 + 224)).toNat = n / 4096 % 16 + 224 :=
      toNat_ofNat_of_lt (by omega)
    rw [← hb] at hl
    have hn : 64 * (64 * (n / 4096) + (n / 64 % 64 + 128 - 0x80)) + (n % 64 + 128 - 0x80) = n := by
      omega
    rw [List.cons_append, List.cons_append, List.singleton_append, scan_cons hl,
      follow_cons (by omega) hlo hhi, follow_cons (by omega) (by omega) (by omega), follow, hn,
      Option.map_some, hof]
  · obtain ⟨lo, hi, hl, hlo, hhi⟩ := lead?_four (n := n) (by omega) (by omega)
    have hb : (UInt8.ofNat (n / 262144 % 8 + 240)).toNat = n / 262144 % 8 + 240 :=
      toNat_ofNat_of_lt (by omega)
    rw [← hb] at hl
    have hn : 64 * (64 * (64 * (n / 262144) + (n / 4096 % 64 + 128 - 0x80)) +
        (n / 64 % 64 + 128 - 0x80)) + (n % 64 + 128 - 0x80) = n := by omega
    rw [List.cons_append, List.cons_append, List.cons_append, List.singleton_append, scan_cons hl,
      follow_cons (by omega) hlo hhi, follow_cons (by omega) (by omega) (by omega),
      follow_cons (by omega) (by omega) (by omega), follow, hn, Option.map_some, hof]

/-- Encoded text is scanned off the front of any bytes. -/
theorem scan_encode_append (s : List Char) (t : List UInt8) :
    scan (encode s ++ t) = s.map some ++ scan t := by
  induction s with
  | nil => rfl
  | cons c s ih =>
    rw [encode, List.flatMap_cons, List.append_assoc, scan_encodeChar_append, ← encode, ih,
      List.map_cons, List.cons_append]

/-- The scan of an encoded text is the text. -/
theorem scan_encode (s : List Char) : scan (encode s) = s.map some := by
  simpa [scan] using scan_encode_append s []

/-- Of encoded text nothing is replaced. -/
@[simp] theorem decodeReplacing_encode (s : List Char) : decodeReplacing (encode s) = s := by
  simp [decodeReplacing, scan_encode, Function.comp_def]

@[simp] theorem decode?_encode (s : List Char) : decode? (encode s) = some s := by
  rw [decode?, scan_encode]
  induction s with
  | nil => rfl
  | cons c s ih => simp [ih]

end FluentMerge.Utf8
