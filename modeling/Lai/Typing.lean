import Lai.Diagnostic
import Lai.Tree
/-!
# Typing

The faults in the types of a tree. An expression is usable if it has a type; every expression that
is not usable is reported once, where it first goes wrong, and what is built from it is passed over
in silence. A variable whose own declaration went wrong is passed over too.
-/

namespace Lai

/-- What is wrong with the types of a tree. -/
inductive TypeFault where
  | undeclared (name : String)
  | undeclaredTarget (name : String)
  | mismatch (left : Ty) (op : MathOp) (right : Ty)
  | undefinedOnString (op : MathOp)
  | initial (name : String) (type value : Ty)
  | assigned (name : String) (type value : Ty)
  | compared (left right : Ty)
  deriving DecidableEq, Repr

/-- The complaint. -/
def TypeFault.message : TypeFault → String
  | .undeclared name => "Undeclared variable '" ++ name ++ "'"
  | .undeclaredTarget name => "Assignment to undeclared variable '" ++ name ++ "'"
  | .mismatch left op right => "Mismatched types " ++ left.text ++ " " ++ op.text ++ " " ++ right.text
  | .undefinedOnString op => "Operator " ++ op.text ++ " is not defined on string"
  | .initial name type value =>
    "Cannot initialize " ++ type.text ++ " variable '" ++ name ++ "' with a " ++ value.text ++ " value"
  | .assigned name type value =>
    "Cannot assign a " ++ value.text ++ " value to " ++ type.text ++ " variable '" ++ name ++ "'"
  | .compared left right => "Cannot compare " ++ left.text ++ " with " ++ right.text

namespace Expr

/-- What is wrong with an operation whose operands are usable. -/
def mathFault? (op : MathOp) (left right : Ty) : Option TypeFault :=
  match left.common right with
  | .unknown => some (.mismatch left op right)
  | .string => if op = .add then none else some (.undefinedOnString op)
  | .int => none

/-- Whether the expression is usable, and the faults in it from left to right, operands first. -/
def check : Expr Binding → Bool × List (Located TypeFault)
  | .int _ _ => (true, [])
  | .string _ _ => (true, [])
  | .var name binding loc =>
    if binding.declared then (binding.type ≠ .unknown, []) else (false, [⟨loc, .undeclared name⟩])
  | .math op left right loc =>
    let l := left.check
    let r := right.check
    if l.1 && r.1 then
      match mathFault? op left.type right.type with
      | none => (true, l.2 ++ r.2)
      | some fault => (false, l.2 ++ r.2 ++ [⟨loc, fault⟩])
    else (false, l.2 ++ r.2)

/-- Whether the expression has a type. -/
def usable (e : Expr Binding) : Bool :=
  e.check.1

/-- The faults inside the expression. -/
def faults (e : Expr Binding) : List (Located TypeFault) :=
  e.check.2

end Expr

/-- The faults of a test. -/
def Condition.faults (c : Condition Binding) : List (Located TypeFault) :=
  c.left.faults ++ c.right.faults ++
    if c.left.usable && c.right.usable && c.left.type ≠ c.right.type then
      [⟨c.loc, .compared c.left.type c.right.type⟩]
    else []

namespace Tree

mutual

/-- The faults of a statement. -/
def Stmt.faults : Stmt → List (Located TypeFault)
  | .declare _ _ _ none _ => []
  | .declare name type inferred (some value) _ =>
    value.faults ++
      if value.usable && !inferred && value.type ≠ type then
        [⟨value.loc, .initial name type value.type⟩]
      else []
  | .assign name target value loc =>
    (if target.declared then [] else [⟨loc, .undeclaredTarget name⟩]) ++ value.faults ++
      if value.usable && target.declared && target.type ≠ .unknown && value.type ≠ target.type then
        [⟨value.loc, .assigned name target.type value.type⟩]
      else []
  | .print value _ => value.faults
  | .ifThen cond body _ _ => cond.faults ++ faultsAll body
  | .ifElse cond body _ otherwise _ => cond.faults ++ faultsAll body ++ otherwise.faults
  | .block body _ => faultsAll body

/-- The faults of statements that follow each other. -/
def faultsAll : List Stmt → List (Located TypeFault)
  | [] => []
  | stmt :: rest => stmt.faults ++ faultsAll rest

end

/-- The faults of a file as diagnostics. -/
def File.typeDiagnostics (file : File) : List Diagnostic :=
  (faultsAll file.body).map fun fault => .ofFault file.name .typing (fault.map TypeFault.message)

end Tree

end Lai
