import Lai.Text
import Lai.Text.Printable
/-!
# Quoted text

A text between double quotes in which every character that cannot be shown is written as an escape:
by name where it has one, else by its code point.
-/

namespace Lai.Text

/-- The letter that names a control character after a backslash. -/
def escapeLetter? (c : Char) : Option Char :=
  match c.toNat with
  | 0x07 => some 'a'
  | 0x08 => some 'b'
  | 0x09 => some 't'
  | 0x0a => some 'n'
  | 0x0b => some 'v'
  | 0x0c => some 'f'
  | 0x0d => some 'r'
  | _ => none

/-- The escape of a character that cannot be shown and has no name. -/
def codeEscape (code : Nat) : List Char :=
  if code < 0x80 then '\\' :: 'x' :: digits 16 2 code
  else if code < 0x10000 then '\\' :: 'u' :: digits 16 4 code
  else '\\' :: 'U' :: digits 16 8 code

/-- One character as it stands between the quotes. -/
def quoteChar (c : Char) : List Char :=
  if c = '"' ∨ c = '\\' then ['\\', c]
  else if isPrintable c then [c]
  else match escapeLetter? c with
    | some letter => ['\\', letter]
    | none => codeEscape c.toNat

/-- The text between double quotes, on one line and with nothing invisible in it. -/
def quote (s : String) : String :=
  String.ofList ('"' :: s.toList.flatMap quoteChar ++ ['"'])

end Lai.Text
