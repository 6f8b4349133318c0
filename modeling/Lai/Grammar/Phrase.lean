import Lai.Expr
/-!
# Phrases

The statements of a text as they are written, before scopes are looked at. Where a statement breaks
off, the phrase that stands for it keeps what was wrong and the blocks that had been read.
-/

namespace Lai.Grammar

/-- What the grammar asks for at a place. -/
inductive Expected where
  | statement
  | binder (name : String)
  | typeName
  | comparison
  | operand
  | symbol (s : Symbol)
  deriving DecidableEq, Repr

/-- A place at which the text leaves the grammar: what it should go on with, and what stands there
instead, which is nothing at the end of the text. -/
structure Fault where
  expected : Expected
  found : Option Lexeme
  deriving DecidableEq, Repr

/-- What is asked for, as shown. -/
def Expected.text : Expected → String
  | .statement => "start of statement"
  | .binder name => "':=', ':' or '=' after '" ++ name ++ "'"
  | .typeName => "type name"
  | .comparison => "'==' or '!='"
  | .operand => "expression"
  | .symbol s => "'" ++ s.text ++ "'"

/-- The complaint. -/
def Fault.message : Fault → String
  | ⟨expected, some lexeme⟩ => "Expecting " ++ expected.text ++ " but got " ++ lexeme.shown
  | ⟨.operand, none⟩ => "Expecting " ++ Expected.operand.text ++ " but found EOF"
  | ⟨expected, none⟩ => "Expecting " ++ expected.text ++ " but got EOF"

/-- A statement as written. The blocks of a broken statement are kept because their declarations are
still looked at. -/
inductive Stmt where
  | infer (name : String) (value : Expr Unit) (loc : Location)
  | declare (name : String) (type : Ty) (value : Option (Expr Unit)) (loc : Location)
  | assign (name : String) (value : Expr Unit) (loc : Location)
  | print (value : Expr Unit) (loc : Location)
  | ifThen (cond : Condition Unit) (body : List Stmt) (brace loc : Location)
  | ifElse (cond : Condition Unit) (body : List Stmt) (brace : Location) (otherwise : Stmt) (loc : Location)
  | block (body : List Stmt) (loc : Location)
  | broken (blocks : List Stmt) (fault : Located Fault)
  deriving Inhabited, Repr

end Lai.Grammar
