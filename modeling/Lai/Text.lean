/-!
# Characters and numerals

A character class is a list of closed ranges of code points in increasing order, so that looking a
code point up can stop at the first range above it. The blanks, which separate tokens, are such a class.
Numbers are written in decimal with a leading minus sign; escapes have padded digits of a smaller or
larger base.
-/

namespace Lai.Text

/-- Whether `code` lies in one of the closed ranges, which stand in increasing order. -/
def inRanges : List (Nat × Nat) → Nat → Bool
  | [], _ => false
  | (first, last) :: rest, code => first ≤ code && (code ≤ last || inRanges rest code)

/-- The code points of the blanks: the characters with the Unicode property of white space. -/
def blankRanges : List (Nat × Nat) :=
  [(0x9, 0xd), (0x20, 0x20), (0x85, 0x85), (0xa0, 0xa0), (0x1680, 0x1680), (0x2000, 0x200a),
   (0x2028, 0x2029), (0x202f, 0x202f), (0x205f, 0x205f), (0x3000, 0x3000)]

/-- Whether the character is white space. -/
def isBlank (c : Char) : Bool :=
  inRanges blankRanges c.toNat

/-- The text without the blanks at its two ends. -/
def trim (s : String) : String :=
  String.ofList ((s.toList.dropWhile isBlank).reverse.dropWhile isBlank).reverse

/-- The decimal numeral of an integer. -/
def decimal : Int → String
  | .ofNat n => Nat.repr n
  | .negSucc n => "-" ++ Nat.repr (n + 1)

/-- The digits of `n` in `base`, lower case, filled up with zeros on the left to `width`. -/
def digits (base width n : Nat) : List Char :=
  List.replicate (width - (Nat.toDigits base n).length) '0' ++ Nat.toDigits base n

end Lai.Text
