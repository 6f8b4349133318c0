import Lai.Text
/-!
# Locations

A place in a source text: line and column, both counted from zero, the column in characters. People
are shown both counted from one. Trees and tokens made by other tools may carry any place at all, also
one far outside of every text; what is shown is always a word of 64 bits, so that the place after the
last one shown is the first.
-/

namespace Lai

/-- A place in a source text, counted from zero. -/
structure Location where
  line : Int
  column : Int
  deriving DecidableEq, Inhabited, Repr

namespace Location

/-- The first character of a text. -/
def origin : Location := ⟨0, 0⟩

/-- A line or column counted from one, as a signed word of 64 bits. -/
def ordinal (n : Int) : Int :=
  (n + 1).bmod UInt64.size

/-- The place as shown to people, counted from one. -/
def text (l : Location) : String :=
  Text.decimal (ordinal l.line) ++ ":" ++ Text.decimal (ordinal l.column)

/-- Reading order: by line, then by column. -/
def Before (a b : Location) : Prop :=
  a.line < b.line ∨ a.line = b.line ∧ a.column < b.column

instance (a b : Location) : Decidable (a.Before b) :=
  inferInstanceAs (Decidable (_ ∨ _))

end Location

/-- Something found at a place. -/
structure Located (α : Type) where
  loc : Location
  value : α
  deriving DecidableEq, Repr

namespace Located

/-- The same find described another way. -/
def map {α β : Type} (f : α → β) (x : Located α) : Located β :=
  ⟨x.loc, f x.value⟩

end Located

end Lai
