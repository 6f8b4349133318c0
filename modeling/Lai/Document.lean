/-!
# Documents

A document is a named text split into lines. A line ends with a line feed or with a carriage return
and a line feed; the end of the text ends the last line too, so a text that ends with a line feed
has no empty line after it.
-/

namespace Lai

/-- A named text, split into lines without their ends. -/
structure Document where
  name : String
  lines : List String
  deriving DecidableEq, Inhabited, Repr

namespace Document

/-- The line without one carriage return at its end. -/
def dropReturn (line : List Char) : List Char :=
  if line.getLast? = some '\r' then line.dropLast else line

/-- The lines of a text. -/
def splitLines (text : List Char) : List (List Char) :=
  let parts := text.splitOn '\n'
  (if parts.getLast? = some [] then parts.dropLast else parts).map dropReturn

/-- The document with the given name and text. -/
def ofText (name text : String) : Document :=
  ⟨name, (splitLines text.toList).map String.ofList⟩

/-- The line with the given number, counted from zero, or nothing if there is none. -/
def line (doc : Document) (i : Int) : String :=
  if i < 0 then "" else doc.lines[i.toNat]?.getD ""

end Document

end Lai
