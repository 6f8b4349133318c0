import Lai.C.Program
/-!
# Statements of C

The part of C that programs are compiled to, as trees: declarations with a first value, assignments,
calls of `printf`, chains of `if`, `else if` and `else`, and blocks. What can stand after `else` is a
block or the rest of a chain by construction. The printed form of a tree is a list of lines.
-/

namespace Lai.C

mutual

inductive Stmt where
  | declare (type : CType) (v : Var) (value : Expr)
  | assign (v : Var) (value : Expr)
  | print (type : CType) (value : Expr)
  | branch (chain : Chain)
  | block (body : List Stmt)

/-- An if statement with everything that is chained to it by `else`. -/
inductive Chain where
  | ifThen (test : Test) (body : List Stmt)
  | ifElse (test : Test) (body last : List Stmt)
  | elseIf (test : Test) (body : List Stmt) (chain : Chain)

end

mutual

/-- The lines of a statement that stands `depth` steps in. -/
def Stmt.lines (depth : Nat) : Stmt → List IndentedLine
  | .declare type v value => [⟨depth, .declare type v value⟩]
  | .assign v value => [⟨depth, .assign v value⟩]
  | .print type value => [⟨depth, .print type value⟩]
  | .branch chain => chain.lines depth .openIf
  | .block body => ⟨depth, .openBlock⟩ :: linesAll (depth + 1) body ++ [⟨depth, .close⟩]

/-- The lines of a chain whose first test is written as the given line. -/
def Chain.lines (depth : Nat) (opening : Test → Line) : Chain → List IndentedLine
  | .ifThen test body => ⟨depth, opening test⟩ :: linesAll (depth + 1) body ++ [⟨depth, .close⟩]
  | .ifElse test body last =>
    ⟨depth, opening test⟩ :: linesAll (depth + 1) body ++
      ⟨depth, .openElse⟩ :: linesAll (depth + 1) last ++ [⟨depth, .close⟩]
  | .elseIf test body chain =>
    ⟨depth, opening test⟩ :: linesAll (depth + 1) body ++ chain.lines depth .openElseIf

/-- The lines of statements that follow each other. -/
def linesAll (depth : Nat) : List Stmt → List IndentedLine
  | [] => []
  | stmt :: rest => stmt.lines depth ++ linesAll depth rest

end

/-- The block of one file. -/
structure Block where
  name : String
  body : List Stmt

/-- How the block is written inside the main function. -/
def Block.toSection (b : Block) : Section :=
  ⟨b.name, linesAll 2 b.body⟩

/-- A program: the blocks of its files. -/
structure Program where
  blocks : List Block

def Program.text (p : Program) : String :=
  programText (p.blocks.map Block.toSection)

end Lai.C
