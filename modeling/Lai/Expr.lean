import Lai.Operator
import Lai.Text.Quoted
/-!
# Expressions

Expressions and conditions, with a note at every variable: nothing while a text is being read, and
what the variable is bound to once scopes are resolved.
-/

namespace Lai

/-- An expression whose variables carry notes of type `β`. -/
inductive Expr (β : Type) where
  | int (value : Int32) (loc : Location)
  | string (value : String) (loc : Location)
  | var (name : String) (note : β) (loc : Location)
  | math (op : MathOp) (left right : Expr β) (loc : Location)
  deriving DecidableEq, Inhabited, Repr

/-- A test of two values. Lai has no truth values, so it is not an expression. -/
structure Condition (β : Type) where
  op : CompareOp
  left : Expr β
  right : Expr β
  loc : Location
  deriving DecidableEq, Inhabited, Repr

/-- What scoping says about a variable: whether there is a declaration, and with which type. -/
structure Binding where
  type : Ty := .unknown
  declared : Bool := false
  deriving DecidableEq, Inhabited, Repr

namespace Expr

variable {β : Type}

/-- Where the expression is complained about: at an operation, its operator. -/
def loc : Expr β → Location
  | .int _ loc | .string _ loc | .var _ _ loc | .math _ _ _ loc => loc

/-- The expression as written, every operation in parentheses. -/
def text : Expr β → String
  | .int value _ => Text.decimal value.toInt
  | .string value _ => Text.quote value
  | .var name _ _ => name
  | .math op left right _ => "(" ++ left.text ++ " " ++ op.text ++ " " ++ right.text ++ ")"

/-- The same expression with other notes. -/
def annotate {γ : Type} (note : String → γ) : Expr β → Expr γ
  | .int value loc => .int value loc
  | .string value loc => .string value loc
  | .var name _ loc => .var name (note name) loc
  | .math op left right loc => .math op (left.annotate note) (right.annotate note) loc

/-- The type of a resolved expression. -/
def type : Expr Binding → Ty
  | .int _ _ => .int
  | .string _ _ => .string
  | .var _ binding _ => binding.type
  | .math _ left right _ => left.type.common right.type

end Expr

namespace Condition

variable {β : Type}

/-- The condition as written. -/
def text (c : Condition β) : String :=
  c.left.text ++ " " ++ c.op.text ++ " " ++ c.right.text

/-- The same condition with other notes. -/
def annotate {γ : Type} (note : String → γ) (c : Condition β) : Condition γ :=
  ⟨c.op, c.left.annotate note, c.right.annotate note, c.loc⟩

end Condition

end Lai
