import Lai.Token
/-!
# Types and operators

Lai has two types of values. The type of an expression that has none is unknown. Arithmetic works on
two operands of one type and comparison tests two values for being equal or different.
-/

namespace Lai

/-- The type of a value. -/
inductive Ty where
  | unknown
  | int
  | string
  deriving DecidableEq, Inhabited, Repr

namespace Ty

/-- Every type, in the order in which types are numbered. -/
def all : List Ty := [.unknown, .int, .string]

/-- How the type is shown. -/
def text : Ty → String
  | .unknown => "unknown"
  | .int => "int"
  | .string => "string"

/-- The type that a keyword names. -/
def ofSymbol? : Symbol → Option Ty
  | .intWord => some .int
  | .stringWord => some .string
  | _ => none

/-- The type that a token names. -/
def ofLexeme? : Lexeme → Option Ty
  | .symbol s => ofSymbol? s
  | _ => none

/-- The type of an operation on two operands: the type they share, if they share one. -/
def common (left right : Ty) : Ty :=
  if left = right then left else .unknown

end Ty

/-- An arithmetic operator. -/
inductive MathOp where
  | add
  | subtract
  | multiply
  | divide
  deriving DecidableEq, Inhabited, Repr

namespace MathOp

/-- Every operator, in the order in which operators are numbered. -/
def all : List MathOp := [.add, .subtract, .multiply, .divide]

/-- How the operator is written. -/
def text : MathOp → String
  | .add => "+"
  | .subtract => "-"
  | .multiply => "*"
  | .divide => "/"

/-- How tightly the operator binds. -/
def precedence : MathOp → Nat
  | .add | .subtract => 1
  | .multiply | .divide => 2

/-- The operator that a token denotes. -/
def ofLexeme? : Lexeme → Option MathOp
  | .symbol .plus => some .add
  | .symbol .minus => some .subtract
  | .symbol .asterisk => some .multiply
  | .symbol .slash => some .divide
  | _ => none

end MathOp

/-- A comparison operator. -/
inductive CompareOp where
  | equal
  | notEqual
  deriving DecidableEq, Inhabited, Repr

namespace CompareOp

/-- Every operator, in the order in which operators are numbered. -/
def all : List CompareOp := [.equal, .notEqual]

/-- How the operator is written. -/
def text : CompareOp → String
  | .equal => "=="
  | .notEqual => "!="

/-- The operator that a token denotes. -/
def ofLexeme? : Lexeme → Option CompareOp
  | .symbol .equal => some .equal
  | .symbol .notEqual => some .notEqual
  | _ => none

end CompareOp

end Lai
