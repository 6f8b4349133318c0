import Lai.C.Name
import Lai.Operator
/-!
# Lines of C

The part of C that programs are compiled to: literals, expressions, tests, and the lines of a block, each
line being a whole simple statement or one end of a block. In a string literal control characters are
written in octal with all three digits, so that a digit after one is not taken into it, and question
marks are escaped, so that no two of them can form a trigraph.
-/

namespace Lai.C

/-- One character between the quotes of a string literal. -/
def literalChar (c : Char) : List Char :=
  if c = '\\' then ['\\', '\\']
  else if c = '"' then ['\\', '"']
  else if c = '\n' then ['\\', 'n']
  else if c = '\t' then ['\\', 't']
  else if c = '?' then ['\\', '?']
  else if c.toNat < 0x20 ∨ c.toNat = 0x7f then '\\' :: Text.digits 8 3 c.toNat
  else [c]

/-- The string literal of a text. -/
def stringLiteral (s : String) : String :=
  String.ofList ('"' :: s.toList.flatMap literalChar ++ ['"'])

/-- The types of C variables. -/
inductive CType where
  | int
  | string
  deriving DecidableEq, Inhabited, Repr

/-- The C type of a Lai type. -/
def CType.ofTy? : Ty → Option CType
  | .unknown => none
  | .int => some .int
  | .string => some .string

/-- A C expression. -/
inductive Expr where
  | int (value : Int32)
  | string (value : String)
  | var (v : Var)
  | math (op : MathOp) (left right : Expr)
  | concat (left right : Expr)
  deriving DecidableEq, Inhabited, Repr

/-- How the expression is written. -/
def Expr.text : Expr → String
  | .int value => Text.decimal value.toInt
  | .string value => stringLiteral value
  | .var v => v.text
  | .math op left right => "(" ++ left.text ++ " " ++ op.text ++ " " ++ right.text ++ ")"
  | .concat left right => "lai_rt_concat(" ++ left.text ++ ", " ++ right.text ++ ")"

/-- The test of an if statement. -/
structure Test where
  type : CType
  op : CompareOp
  left : Expr
  right : Expr
  deriving DecidableEq, Inhabited, Repr

/-- How the test is written; texts are compared by their characters. -/
def Test.text (t : Test) : String :=
  match t.type with
  | .int => t.left.text ++ " " ++ t.op.text ++ " " ++ t.right.text
  | .string => "strcmp(" ++ t.left.text ++ ", " ++ t.right.text ++ ") " ++ t.op.text ++ " 0"

/-- The value of a variable declared without one. -/
def CType.zero : CType → Expr
  | .int => .int 0
  | .string => .string ""

/-- A line of a block. -/
inductive Line where
  | declare (type : CType) (v : Var) (value : Expr)
  | assign (v : Var) (value : Expr)
  | print (type : CType) (value : Expr)
  | openIf (test : Test)
  | openElseIf (test : Test)
  | openElse
  | openBlock
  | close
  deriving DecidableEq, Inhabited, Repr

/-- How the line is written, indentation aside. -/
def Line.text : Line → String
  | .declare .int v value => "int " ++ v.text ++ " = " ++ value.text ++ ";"
  | .declare .string v value => "const char *" ++ v.text ++ " = " ++ value.text ++ ";"
  | .assign v value => v.text ++ " = " ++ value.text ++ ";"
  | .print .int value => "printf(\"%d\\n\", " ++ value.text ++ ");"
  | .print .string value => "printf(\"%s\\n\", " ++ value.text ++ ");"
  | .openIf test => "if (" ++ test.text ++ ") \x7b"
  | .openElseIf test => "\x7d else if (" ++ test.text ++ ") \x7b"
  | .openElse => "\x7d else \x7b"
  | .openBlock => "\x7b"
  | .close => "\x7d"

/-- A line and how far it is indented. -/
structure IndentedLine where
  depth : Nat
  line : Line
  deriving DecidableEq, Inhabited, Repr

/-- How the line is written. -/
def IndentedLine.text (l : IndentedLine) : String :=
  String.ofList (List.replicate l.depth '\t') ++ l.line.text

end Lai.C
