import XusMiner.Library.ByteCodec

namespace Hex
open ByteCodec

/-- Lowercase hexadecimal digit of a nibble. -/
def digit (n : ℕ) : Char := Char.ofNat (if n < 10 then 48 + n else 87 + n)

def encodeChars (bs : Bytes) : List Char :=
  bs.flatMap fun b => [digit (b.toNat / 16), digit (b.toNat % 16)]

/-- Two lowercase digits a byte, most significant first. -/
def encode (bs : Bytes) : String := String.ofList (encodeChars bs)

inductive Error
  | oddLength
  | invalidCharacter (c : UInt8) (index : ℕ)
  deriving DecidableEq, Repr

/-- A Latin-1 character as its debug text. -/
def debugChar (c : UInt8) : String :=
  let n := c.toNat
  let body :=
    if n = 0 then "\\0" else if n = 9 then "\\t" else if n = 10 then "\\n"
    else if n = 13 then "\\r" else if n = 39 then "\\'" else if n = 92 then "\\\\"
    else if n < 32 ∨ (127 ≤ n ∧ n < 160) ∨ n = 173 then
      "\\u\x7b" ++ String.ofList ((Nat.toDigits 16 n)) ++ "\x7d"
    else String.singleton (Char.ofNat n)
  "'" ++ body ++ "'"

def Error.text : Error → String
  | .oddLength => "Odd number of digits"
  | .invalidCharacter c index =>
    "Invalid character " ++ debugChar c ++ " at position " ++ Nat.repr index

/-- The value of one digit, of either case. -/
def val (c : UInt8) (index : ℕ) : Except Error UInt8 :=
  if 65 ≤ c ∧ c ≤ 70 then .ok (c - 55)
  else if 97 ≤ c ∧ c ≤ 102 then .ok (c - 87)
  else if 48 ≤ c ∧ c ≤ 57 then .ok (c - 48)
  else .error (.invalidCharacter c index)

def decodePairs : ℕ → Bytes → Except Error Bytes
  | index, hi :: lo :: rest => do
    let h ← val hi index
    let l ← val lo (index + 1)
    let tail ← decodePairs (index + 2) rest
    return (h * 16 + l) :: tail
  | _, _ => .ok []

def decode (s : String) : Except Error Bytes :=
  if (utf8 s).length % 2 ≠ 0 then .error .oddLength else decodePairs 0 (utf8 s)

theorem digit_utf8 (n : ℕ) (h : n < 16) :
    String.utf8EncodeChar (digit n) = [UInt8.ofNat (if n < 10 then 48 + n else 87 + n)] := by
  interval_cases n <;> decide

theorem val_digit (n index : ℕ) (h : n < 16) :
    val (UInt8.ofNat (if n < 10 then 48 + n else 87 + n)) index = .ok (UInt8.ofNat n) := by
  interval_cases n <;> rfl

theorem utf8_encode_nil : utf8 (encode []) = [] := by
  rfl

theorem utf8_encode_cons (b : UInt8) (bs : Bytes) : utf8 (encode (b :: bs)) =
    UInt8.ofNat (if b.toNat / 16 < 10 then 48 + b.toNat / 16 else 87 + b.toNat / 16) ::
    UInt8.ofNat (if b.toNat % 16 < 10 then 48 + b.toNat % 16 else 87 + b.toNat % 16) ::
      utf8 (encode bs) := by
  have hb : b.toNat < 256 := b.toNat_lt
  simp only [encode, encodeChars, utf8_ofList, List.flatMap_cons, List.flatMap_append,
    List.flatMap_nil, List.append_nil]
  rw [digit_utf8 _ (by omega), digit_utf8 _ (by omega)]
  rfl

theorem length_utf8_encode (bs : Bytes) : (utf8 (encode bs)).length = 2 * bs.length := by
  induction bs with
  | nil => simp [utf8_encode_nil]
  | cons b bs ih => simp [utf8_encode_cons, ih]; omega

theorem nibbles (b : UInt8) : UInt8.ofNat (b.toNat / 16) * 16 + UInt8.ofNat (b.toNat % 16) = b := by
  apply UInt8.toNat_inj.mp
  have hb : b.toNat < 256 := b.toNat_lt
  simp only [UInt8.toNat_add, UInt8.toNat_mul, UInt8.toNat_ofNat', UInt8.reduceToNat]
  omega

theorem decodePairs_encode (index : ℕ) (bs : Bytes) :
    decodePairs index (utf8 (encode bs)) = .ok bs := by
  induction bs generalizing index with
  | nil => simp [utf8_encode_nil, decodePairs]
  | cons b bs ih =>
    have hb : b.toNat < 256 := b.toNat_lt
    rw [utf8_encode_cons, decodePairs, val_digit _ _ (by omega), val_digit _ _ (by omega), ih]
    simp only [bind, Except.bind, pure, Except.pure, nibbles]

/-- Decoding inverts encoding. -/
theorem decode_encode (bs : Bytes) : decode (encode bs) = .ok bs := by
  rw [decode, if_neg (by rw [length_utf8_encode]; omega), decodePairs_encode]

end Hex
