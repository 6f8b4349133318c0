import Lai.Text
/-!
# Names in C

Every variable of a Lai program gets a C name of its own. ASCII letters and digits are kept and every
other character is written as its code between underscores, so that different names stay different;
the second and later declarations of one name are told apart by a number at the end.
-/

namespace Lai.C

/-- One character of a name. -/
def mangleChar (c : Char) : List Char :=
  if c.isAlphanum then [c] else '_' :: Text.digits 16 0 c.toNat ++ ['_']

/-- The name behind the mark that keeps variables apart from everything else in the C text. -/
def mangle (name : String) : String :=
  String.ofList ("lai_v_".toList ++ name.toList.flatMap mangleChar)

/-- A C variable: the Lai name it was declared with and how many declarations of that name there
were in the file up to its own. -/
structure Var where
  name : String
  ordinal : Nat
  deriving DecidableEq, Inhabited, Repr

/-- How the variable is written. -/
def Var.text (v : Var) : String :=
  if v.ordinal ≤ 1 then mangle v.name else mangle v.name ++ "_" ++ Nat.repr v.ordinal

end Lai.C
