import Lai.C.Line
import Lai.Scopes
import Lai.Tree
/-!
# Writing C

The writer writes the statements of one file as lines of C. It keeps scopes of its own, because each
declaration gets its own C variable: the initial value of a declaration still reads the variable that
the declaration is about to hide. When a statement cannot be written, the lines written so far stay.
-/

namespace Lai.C

/-- A statement that cannot stand after `else`. -/
inductive Simple where
  | declare
  | assign
  | print
  deriving DecidableEq, Inhabited, Repr

/-- Why a tree cannot be written in C. -/
inductive Fault where
  | undeclared (name : String)
  | unknownType
  | undefinedOnString (op : MathOp)
  | unprintable (type : Ty)
  | incomparable (type : Ty)
  | untyped (v : Var)
  | noZero (type : Ty)
  | unsupportedElse (kind : Simple)
  deriving DecidableEq, Repr

/-- How the statement is called in complaints. -/
def Simple.text : Simple → String
  | .declare => "lib.VariableDeclaration"
  | .assign => "lib.Assignment"
  | .print => "lib.PrintStatement"

/-- The complaint. -/
def Fault.message : Fault → String
  | .undeclared name => "undeclared variable '" ++ name ++ "'"
  | .unknownType => "expression has unknown type"
  | .undefinedOnString op => "operator " ++ op.text ++ " is not defined on string"
  | .unprintable type => "cannot print a value of type " ++ type.text
  | .incomparable type => "cannot compare values of type " ++ type.text
  | .untyped v => "variable " ++ v.text ++ " has unknown type"
  | .noZero type => "no zero value for type " ++ type.text
  | .unsupportedElse kind => "unsupported else branch " ++ kind.text

/-- The complaint with its file and place in front. -/
def faultText (file : String) (fault : Located Fault) : String :=
  file ++ ":" ++ fault.loc.text ++ ": " ++ fault.value.message

/-- The state of the writer: the lines written, latest first; how far the next one is indented; the
variables in scope; and how often each name has been declared, latest count first. -/
structure Writer where
  lines : List IndentedLine := []
  depth : Nat := 2
  scopes : Scopes Var := {}
  counts : List (String × Nat) := []
  deriving DecidableEq, Inhabited, Repr

/-- The state after a statement, and the fault if the statement could not be written. -/
abbrev Outcome := Writer × Option (Located Fault)

/-- Goes on unless there was a fault. -/
def Outcome.andThen (x : Outcome) (next : Writer → Outcome) : Outcome :=
  match x.2 with
  | none => next x.1
  | some _ => x

namespace Writer

/-- How often the name has been declared. -/
def count (w : Writer) (name : String) : Nat :=
  (w.counts.lookup name).getD 0

/-- The variable that the next declaration of the name makes. -/
def nextVar (w : Writer) (name : String) : Var :=
  ⟨name, w.count name + 1⟩

/-- Makes a variable for a declaration in the innermost block. -/
def bind (w : Writer) (name : String) : Writer :=
  { w with
    scopes := w.scopes.bind name (w.nextVar name)
    counts := (name, w.count name + 1) :: w.counts }

/-- The variable that the name means. -/
def find (w : Writer) (name : String) (loc : Location) : Except (Located Fault) Var :=
  match w.scopes.find? name with
  | some v => .ok v
  | none => .error ⟨loc, .undeclared name⟩

/-- Writes a line. -/
def put (w : Writer) (line : Line) : Writer :=
  { w with lines := ⟨w.depth, line⟩ :: w.lines }

/-- The writer at the start of a block: one step further in and with a scope of its own. -/
def entered (w : Writer) : Writer :=
  { w with depth := w.depth + 1, scopes := w.scopes.enter }

/-- The writer behind the end of a block: one step further out and without its innermost scope. -/
def left (w : Writer) : Writer :=
  { w with depth := w.depth - 1, scopes := w.scopes.leave }

/-- Writes the inside of a block. The block is left again when a fault ends it, too. -/
def inside (w : Writer) (body : Writer → Outcome) : Outcome :=
  let x := body w.entered
  (x.1.left, x.2)

/-- Ends with a fault. -/
def fail (w : Writer) (loc : Location) (fault : Fault) : Outcome :=
  (w, some ⟨loc, fault⟩)

/-- An expression in C. -/
def expr (w : Writer) (x : Lai.Expr Binding) : Except (Located Fault) Expr :=
  if x.type = .unknown then .error ⟨x.loc, .unknownType⟩
  else match x with
    | .int value _ => .ok (.int value)
    | .string value _ => .ok (.string value)
    | .var name _ loc => (w.find name loc).map .var
    | .math op left right loc =>
      match w.expr left with
      | .error fault => .error fault
      | .ok l =>
        match w.expr right with
        | .error fault => .error fault
        | .ok r =>
          if left.type.common right.type = .string then
            if op = .add then .ok (.concat l r) else .error ⟨loc, .undefinedOnString op⟩
          else .ok (.math op l r)

/-- A test in C. -/
def test (w : Writer) (c : Condition Binding) : Except (Located Fault) Test :=
  match w.expr c.left with
  | .error fault => .error fault
  | .ok l =>
    match w.expr c.right with
    | .error fault => .error fault
    | .ok r =>
      match CType.ofTy? c.left.type with
      | some type => .ok ⟨type, c.op, l, r⟩
      | none => .error ⟨c.loc, .incomparable c.left.type⟩

/-- The first value of a variable. -/
def initialValue (w : Writer) (type : Ty) (value : Option (Lai.Expr Binding)) (loc : Location) :
    Except (Located Fault) Expr :=
  match value with
  | some x => w.expr x
  | none =>
    match CType.ofTy? type with
    | some t => .ok t.zero
    | none => .error ⟨loc, .noZero type⟩

/-- Writes a declaration. Its value is written before the name is taken. -/
def declaration (w : Writer) (name : String) (type : Ty) (value : Option (Lai.Expr Binding))
    (loc : Location) : Outcome :=
  match w.initialValue type value loc with
  | .error fault => (w, some fault)
  | .ok first =>
    match CType.ofTy? type with
    | none => (w.bind name).fail loc (.untyped (w.nextVar name))
    | some t => ((w.bind name).put (.declare t (w.nextVar name) first), none)

/-- Writes an assignment. -/
def assignment (w : Writer) (name : String) (value : Lai.Expr Binding) (loc : Location) : Outcome :=
  match w.expr value with
  | .error fault => (w, some fault)
  | .ok x =>
    match w.find name loc with
    | .error fault => (w, some fault)
    | .ok v => (w.put (.assign v x), none)

/-- Writes a print statement. -/
def printing (w : Writer) (value : Lai.Expr Binding) (loc : Location) : Outcome :=
  match w.expr value with
  | .error fault => (w, some fault)
  | .ok x =>
    match CType.ofTy? value.type with
    | some t => (w.put (.print t x), none)
    | none => w.fail loc (.unprintable value.type)

end Writer

/-- Where a statement stands: on its own, or after the `else` of the if statement at a place. -/
inductive Position where
  | alone
  | afterElse (loc : Location)
  deriving DecidableEq, Inhabited, Repr

/-- The line that opens a block at the position. -/
def Position.openBlock : Position → Line
  | .alone => .openBlock
  | .afterElse _ => .openElse

/-- The line that opens the branch of a test at the position. -/
def Position.openIf (test : Test) : Position → Line
  | .alone => .openIf test
  | .afterElse _ => .openElseIf test

/-- Writes a simple statement, which can only stand on its own. -/
def Position.simple (position : Position) (kind : Simple) (w : Writer) (x : Outcome) : Outcome :=
  match position with
  | .alone => x
  | .afterElse loc => w.fail loc (.unsupportedElse kind)

mutual

/-- Writes a statement. -/
def writeStmt (position : Position) : Tree.Stmt → Writer → Outcome
  | .declare name type _ value loc, w => position.simple .declare w (w.declaration name type value loc)
  | .assign name _ value loc, w => position.simple .assign w (w.assignment name value loc)
  | .print value loc, w => position.simple .print w (w.printing value loc)
  | .ifThen cond body _ _, w =>
    match w.test cond with
    | .error fault => (w, some fault)
    | .ok test =>
      ((w.put (position.openIf test)).inside (writeAll body)).andThen fun w => (w.put .close, none)
  | .ifElse cond body _ otherwise loc, w =>
    match w.test cond with
    | .error fault => (w, some fault)
    | .ok test =>
      ((w.put (position.openIf test)).inside (writeAll body)).andThen (writeStmt (.afterElse loc) otherwise)
  | .block body _, w =>
    ((w.put position.openBlock).inside (writeAll body)).andThen fun w => (w.put .close, none)

/-- Writes statements that follow each other. -/
def writeAll : List Tree.Stmt → Writer → Outcome
  | [], w => (w, none)
  | stmt :: rest, w => (writeStmt .alone stmt w).andThen (writeAll rest)

end

end Lai.C
