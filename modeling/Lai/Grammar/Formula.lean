import Lai.Expr
/-!
# Expressions in the making

An expression is read from left to right with one operator of each precedence waiting at most:
operators of one precedence associate to the left, and multiplication and division bind tighter than
addition and subtraction. Every open parenthesis starts afresh and keeps what waits around it.
-/

namespace Lai.Grammar

/-- An operator that waits for its right operand. -/
structure Pending where
  left : Expr Unit
  op : MathOp
  loc : Location
  deriving DecidableEq, Inhabited, Repr

/-- The operation with its right operand, or the operand alone if nothing waits for it. -/
def supply : Option Pending → Expr Unit → Expr Unit
  | none, e => e
  | some p, e => .math p.op p.left e p.loc

/-- What waits inside one pair of parentheses: a sum, and after it a product. -/
structure Level where
  sum : Option Pending := none
  product : Option Pending := none
  deriving DecidableEq, Inhabited, Repr

/-- An expression read up to a point at which an operand has to follow. -/
structure Hole where
  level : Level := {}
  outer : List Level := []
  deriving DecidableEq, Inhabited, Repr

/-- An expression read up to a point at which an operand has just ended: the last term read, the sum
that waits for it, and the levels of the parentheses that are still open. -/
structure Formula where
  sum : Option Pending
  term : Expr Unit
  outer : List Level
  deriving DecidableEq, Inhabited, Repr

/-- Reads an operand. -/
def Hole.fill (hole : Hole) (operand : Expr Unit) : Formula :=
  ⟨hole.level.sum, supply hole.level.product operand, hole.outer⟩

/-- Reads an opening parenthesis. -/
def Hole.nest (hole : Hole) : Hole :=
  ⟨{}, hole.level :: hole.outer⟩

/-- The expression between the innermost parentheses. -/
def Formula.value (formula : Formula) : Expr Unit :=
  supply formula.sum formula.term

/-- Reads an operator. -/
def Formula.extend (formula : Formula) (op : MathOp) (loc : Location) : Hole :=
  match op.precedence with
  | 1 => ⟨⟨some ⟨formula.value, op, loc⟩, none⟩, formula.outer⟩
  | _ => ⟨⟨formula.sum, some ⟨formula.term, op, loc⟩⟩, formula.outer⟩

/-- Reads a closing parenthesis, the innermost open level being `level`. -/
def Formula.close (formula : Formula) (level : Level) (outer : List Level) : Formula :=
  Hole.fill ⟨level, outer⟩ formula.value

end Lai.Grammar
