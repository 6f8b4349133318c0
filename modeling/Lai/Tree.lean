import Lai.Expr
/-!
# Trees

The statements of a file with everything scoping says about them: each variable read or assigned
knows its declaration's type, and each declaration its own.
-/

namespace Lai.Tree

/-- A statement. The part after `else` is a block or another if statement in every tree the compiler
builds; a tree from elsewhere may have any statement there. -/
inductive Stmt where
  | declare (name : String) (type : Ty) (inferred : Bool) (value : Option (Expr Binding)) (loc : Location)
  | assign (name : String) (target : Binding) (value : Expr Binding) (loc : Location)
  | print (value : Expr Binding) (loc : Location)
  | ifThen (cond : Condition Binding) (body : List Stmt) (brace loc : Location)
  | ifElse (cond : Condition Binding) (body : List Stmt) (brace : Location) (otherwise : Stmt) (loc : Location)
  | block (body : List Stmt) (loc : Location)
  deriving Inhabited, Repr

/-- The statements of a named file. -/
structure File where
  name : String
  body : List Stmt
  deriving Inhabited, Repr

end Lai.Tree
