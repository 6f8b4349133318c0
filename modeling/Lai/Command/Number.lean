/-!
# Numbers on the command line

An integer may be signed and may be written in base two, eight or sixteen behind a mark of its base;
a leading zero alone also means base eight. Single underscores may stand between digits and after
the mark.
-/

namespace Lai.Command

/-- Why a text is not a number. -/
inductive NumberFault where
  | malformed
  | outOfRange
  deriving DecidableEq, Inhabited, Repr

/-- The complaint. -/
def NumberFault.text : NumberFault → String
  | .malformed => "parse error"
  | .outOfRange => "value out of range"

/-- The value of a digit of any base. -/
def digitValue? (c : Char) : Option Nat :=
  if c.isDigit then some (c.toNat - '0'.toNat)
  else if c.isLower then some (c.toNat - 'a'.toNat + 10)
  else if c.isUpper then some (c.toNat - 'A'.toNat + 10)
  else none

/-- The base of an unsigned numeral and its digits. A mark of the base leaves its zero behind, and is
none if no digit follows. -/
def radix : List Char → Nat × List Char
  | '0' :: mark :: digit :: rest =>
    if mark = 'b' ∨ mark = 'B' then (2, '0' :: digit :: rest)
    else if mark = 'o' ∨ mark = 'O' then (8, '0' :: digit :: rest)
    else if mark = 'x' ∨ mark = 'X' then (16, '0' :: digit :: rest)
    else (8, '0' :: mark :: digit :: rest)
  | '0' :: rest => (8, '0' :: rest)
  | cs => (10, cs)

/-- The largest number that digits are read up to. -/
def maxMagnitude : Nat := UInt64.size - 1

/-- Reads digits on from the value `n`, underscores aside; the first fault from the left counts. -/
def readDigits (base : Nat) (n : Nat) : List Char → Except NumberFault Nat
  | [] => .ok n
  | c :: cs =>
    if c = '_' then readDigits base n cs
    else match digitValue? c with
      | none => .error .malformed
      | some d =>
        if base ≤ d then .error .malformed
        else if maxMagnitude < n * base + d then .error .outOfRange
        else readDigits base (n * base + d) cs

/-- Whether every underscore stands between two digits, a digit standing in front. -/
def separated : List Char → Bool
  | [] => true
  | '_' :: [] => false
  | '_' :: '_' :: _ => false
  | _ :: cs => separated cs

/-- Reads an unsigned numeral. -/
def readMagnitude (cs : List Char) : Except NumberFault Nat :=
  let (base, digits) := radix cs
  match readDigits base 0 digits with
  | .error fault => .error fault
  | .ok n =>
    if digits ≠ [] ∧ digits.head? ≠ some '_' ∧ separated digits then .ok n else .error .malformed

/-- Reads an integer of 64 bits. -/
def readInteger (text : String) : Except NumberFault Int :=
  match text.toList with
  | '-' :: cs =>
    match readMagnitude cs with
    | .error fault => .error fault
    | .ok n => if -(n : Int) < Int64.minValue.toInt then .error .outOfRange else .ok (-(n : Int))
  | cs =>
    match readMagnitude (if cs.head? = some '+' then cs.tail else cs) with
    | .error fault => .error fault
    | .ok n => if Int64.maxValue.toInt < n then .error .outOfRange else .ok n

end Lai.Command
