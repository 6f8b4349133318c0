import Lai.Diagnostic
import Lai.Operator
/-!
# Numbering

Kinds, types, categories and operators by number, as other tools refer to them. A number that stands
for nothing is shown together with the name of what it should number.
-/

namespace Lai

/-- The element with the given number. -/
def numbered? {α : Type} (all : List α) (n : Int) : Option α :=
  if n < 0 then none else all[n.toNat]?

/-- The text of the element with the given number. -/
def numberedText {α : Type} (what : String) (all : List α) (text : α → String) (n : Int) : String :=
  match numbered? all n with
  | some a => text a
  | none => what ++ "(" ++ Text.decimal n ++ ")"

/-- The name of a token kind by number. -/
def Token.Kind.nameOf : Int → String :=
  numberedText "TokenKind" Token.Kind.all Token.Kind.name

/-- The spelling of a token kind by number, if it has one. -/
def Token.Kind.textOf (n : Int) : String :=
  ((numbered? Token.Kind.all n).map Token.Kind.text).getD ""

/-- The type that a token kind names, by number. -/
def Token.Kind.typeOf? (n : Int) : Option Ty :=
  match numbered? Token.Kind.all n with
  | some (.symbol s) => Ty.ofSymbol? s
  | _ => none

/-- The name of a type by number. -/
def Ty.nameOf : Int → String :=
  numberedText "LaiType" Ty.all Ty.text

/-- The name of a category of diagnostics by number. -/
def Category.nameOf : Int → String :=
  numberedText "ErrorKind" Category.all Category.text

/-- An arithmetic operator by number. -/
def MathOp.nameOf : Int → String :=
  numberedText "mathOpType" MathOp.all MathOp.text

/-- How tightly an arithmetic operator binds, by number; what is no operator binds tightest. -/
def MathOp.precedenceOf (n : Int) : Nat :=
  ((numbered? MathOp.all n).map MathOp.precedence).getD 100

/-- A comparison operator by number. -/
def CompareOp.nameOf : Int → String :=
  numberedText "compareOpType" CompareOp.all CompareOp.text

end Lai
