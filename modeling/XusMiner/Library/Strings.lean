import XusMiner.Library.ByteCodec

namespace Strings

/-- The Unicode `White_Space` property. -/
def isWhitespace (c : Char) : Bool :=
  let n := c.toNat
  (9 ≤ n && n ≤ 13) || n == 0x20 || n == 0x85 || n == 0xA0 || n == 0x1680 ||
    (0x2000 ≤ n && n ≤ 0x200A) || n == 0x2028 || n == 0x2029 || n == 0x202F || n == 0x205F ||
    n == 0x3000

def trimChars (cs : List Char) : List Char :=
  ((cs.dropWhile isWhitespace).reverse.dropWhile isWhitespace).reverse

/-- The string without leading and trailing white space. -/
def trim (s : String) : String := String.ofList (trimChars s.toList)

/-- The decimal text of a number. -/
def decimal (n : ℕ) : String := Nat.repr n

def stripPrefix (front s : String) : Option String :=
  if front.toList.isPrefixOf s.toList then some (String.ofList (s.toList.drop front.length))
  else none

/-- The string without the occurrences of a character at its end. -/
def trimEndMatches (c : Char) (s : String) : String :=
  String.ofList (s.toList.reverse.dropWhile (· = c)).reverse

/-- The parts before and after the last occurrence of a character. -/
def rsplitOnce (c : Char) (s : String) : Option (String × String) :=
  if c ∈ s.toList then
    let back := (s.toList.reverse.takeWhile (· ≠ c)).reverse
    some (String.ofList (s.toList.take (s.length - back.length - 1)), String.ofList back)
  else none

end Strings
